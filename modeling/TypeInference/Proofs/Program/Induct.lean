import TypeInference.Program.Expr

/-!
# Induction on programs

Expressions, blocks, statements and written fields are proved about together.
A list of nodes gives the hypothesis for each of its members, an optional node
for the node if there is one. A written type is taken apart as it is read: by
what its name resolved to.
-/

namespace TypeInference

@[elab_as_elim, induction_eliminator]
theorem TypeRef.induct {motive : TypeRef → Prop}
    (unit : ∀ m, motive (.unit m))
    (infer : ∀ m, motive (.infer m))
    (unresolved : ∀ m name args, (∀ t ∈ args, motive t) → motive (.path m name none args))
    (builtin : ∀ m name args, (∀ t ∈ args, motive t) → motive (.path m name (some .builtin) args))
    (adt : ∀ m name id args, (∀ t ∈ args, motive t) → motive (.path m name (some (.adt id)) args))
    (param : ∀ m name id args, (∀ t ∈ args, motive t) →
      motive (.path m name (some (.param id)) args))
    (t : TypeRef) : motive t := by
  refine @TypeRef.rec motive (fun ts => ∀ t ∈ ts, motive t) unit infer (fun m name res args ih => ?_)
    (by simp) (fun t ts ht hts => List.forall_mem_cons.2 ⟨ht, hts⟩) t
  rcases res with _ | _ | id | id
  · exact unresolved m name args ih
  · exact builtin m name args ih
  · exact adt m name id args ih
  · exact param m name id args ih

theorem Expr.induct {onExpr : Expr → Prop} {onBlock : Block → Prop} {onStmt : Stmt → Prop}
    {onField : FieldInit → Prop}
    (lit : ∀ m l, onExpr (.lit m l))
    (path : ∀ m p, onExpr (.path m p))
    (block : ∀ m b, onBlock b → onExpr (.block m b))
    (struct : ∀ m p span fields base, (∀ f ∈ fields, onField f) → (∀ b, base = some b → onExpr b) →
      onExpr (.struct m p span fields base))
    (field : ∀ m base name, onExpr base → onExpr (.field m base name))
    (tupleIndex : ∀ m base index, onExpr base → onExpr (.tupleIndex m base index))
    (call : ∀ m callee args, onExpr callee → (∀ e ∈ args, onExpr e) → onExpr (.call m callee args))
    (unary : ∀ m op e, onExpr e → onExpr (.unary m op e))
    (binary : ∀ m op l r, onExpr l → onExpr r → onExpr (.binary m op l r))
    (assign : ∀ m l r, onExpr l → onExpr r → onExpr (.assign m l r))
    (paren : ∀ m e, onExpr e → onExpr (.paren m e))
    (mk : ∀ m stmts tail, (∀ s ∈ stmts, onStmt s) → (∀ e, tail = some e → onExpr e) →
      onBlock (.mk m stmts tail))
    (bind : ∀ m binding name ty init, (∀ e, init = some e → onExpr e) →
      onStmt (.bind m binding name ty init))
    (expr : ∀ m e, onExpr e → onStmt (.expr m e))
    (semi : ∀ m e, onExpr e → onStmt (.semi m e))
    (named : ∀ m name value, onExpr value → onField (.named m name value))
    (index : ∀ m i value, onExpr value → onField (.index m i value))
    (short : ∀ m name res, onField (.short m name res)) :
    (∀ e, onExpr e) ∧ (∀ b, onBlock b) ∧ (∀ s, onStmt s) ∧ (∀ f, onField f) := by
  have hexpr : ∀ e, onExpr e := by
    intro e
    refine @Expr.rec onExpr onBlock onStmt onField (fun l => ∀ f ∈ l, onField f)
      (fun o => ∀ e, o = some e → onExpr e) (fun l => ∀ e ∈ l, onExpr e) (fun l => ∀ s ∈ l, onStmt s)
      lit path block struct field tupleIndex call unary binary assign paren mk bind expr semi named
      index short ?_ ?_ ?_ ?_ ?_ ?_ ?_ ?_ e
    all_goals simp_all
  have hstmt : ∀ s, onStmt s := by
    intro s
    cases s with
    | bind m binding name ty init => exact bind m binding name ty init fun e _ => hexpr e
    | expr m e => exact expr m e (hexpr e)
    | semi m e => exact semi m e (hexpr e)
  refine ⟨hexpr, fun b => ?_, hstmt, fun f => ?_⟩
  · obtain ⟨m, stmts, tail⟩ := b
    exact mk m stmts tail (fun s _ => hstmt s) fun e _ => hexpr e
  · cases f with
    | named m name value => exact named m name value (hexpr value)
    | index m i value => exact index m i value (hexpr value)
    | short m name res => exact short m name res

end TypeInference
