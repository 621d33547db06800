import TypeInference.Program.Item

/-!
# Resolutions of written types

What the names in written types resolved to, everywhere in a program: in
signatures, in the arguments of paths, and in the annotations of bindings.
-/

namespace TypeInference

mutual

/-- What the names in a written type resolved to, where they did. -/
def TypeRef.resolutions : TypeRef → List TypeRes
  | .path _ _ res args => res.toList ++ TypeRef.resolutionsAll args
  | _ => []

def TypeRef.resolutionsAll : List TypeRef → List TypeRes
  | [] => []
  | t :: ts => t.resolutions ++ TypeRef.resolutionsAll ts

end

def TypeRef.resolutionsOption : Option TypeRef → List TypeRes
  | none => []
  | some t => t.resolutions

def Path.resolutions (p : Path) : List TypeRes :=
  p.segments.flatMap fun s => TypeRef.resolutionsAll s.args

mutual

def Expr.resolutions : Expr → List TypeRes
  | .lit _ _ => []
  | .path _ p => p.resolutions
  | .block _ b => b.resolutions
  | .struct _ p _ fields base =>
      p.resolutions ++ (Expr.resolutionsOption base ++ FieldInit.resolutionsAll fields)
  | .field _ base _ => base.resolutions
  | .tupleIndex _ base _ => base.resolutions
  | .call _ callee args => callee.resolutions ++ Expr.resolutionsAll args
  | .unary _ _ e => e.resolutions
  | .binary _ _ l r => l.resolutions ++ r.resolutions
  | .assign _ l r => l.resolutions ++ r.resolutions
  | .paren _ e => e.resolutions

def Expr.resolutionsAll : List Expr → List TypeRes
  | [] => []
  | e :: es => e.resolutions ++ Expr.resolutionsAll es

def Expr.resolutionsOption : Option Expr → List TypeRes
  | none => []
  | some e => e.resolutions

def Block.resolutions : Block → List TypeRes
  | .mk _ stmts tail => Stmt.resolutionsAll stmts ++ Expr.resolutionsOption tail

def Stmt.resolutionsAll : List Stmt → List TypeRes
  | [] => []
  | s :: rest => s.resolutions ++ Stmt.resolutionsAll rest

def Stmt.resolutions : Stmt → List TypeRes
  | .bind _ _ _ ty init => TypeRef.resolutionsOption ty ++ Expr.resolutionsOption init
  | .expr _ e => e.resolutions
  | .semi _ e => e.resolutions

def FieldInit.resolutionsAll : List FieldInit → List TypeRes
  | [] => []
  | f :: rest => f.resolutions ++ FieldInit.resolutionsAll rest

def FieldInit.resolutions : FieldInit → List TypeRes
  | .named _ _ value => value.resolutions
  | .index _ _ value => value.resolutions
  | .short _ _ _ => []

end

theorem TypeRef.resolutionsAll_eq (ts : List TypeRef) :
    TypeRef.resolutionsAll ts = ts.flatMap TypeRef.resolutions := by
  induction ts with
  | nil => rfl
  | cons t ts ih => simp [TypeRef.resolutionsAll, ih]

theorem TypeRef.resolutions_subset_resolutionsAll {t : TypeRef} {ts : List TypeRef} (h : t ∈ ts) :
    t.resolutions ⊆ resolutionsAll ts := by
  intro r hr
  rw [resolutionsAll_eq]
  exact List.mem_flatMap.2 ⟨t, h, hr⟩

theorem Expr.resolutionsAll_eq (es : List Expr) :
    Expr.resolutionsAll es = es.flatMap Expr.resolutions := by
  induction es with
  | nil => rfl
  | cons e es ih => simp [Expr.resolutionsAll, ih]

theorem Stmt.resolutionsAll_eq (stmts : List Stmt) :
    Stmt.resolutionsAll stmts = stmts.flatMap Stmt.resolutions := by
  induction stmts with
  | nil => rfl
  | cons s rest ih => simp [Stmt.resolutionsAll, ih]

theorem FieldInit.resolutionsAll_eq (fields : List FieldInit) :
    FieldInit.resolutionsAll fields = fields.flatMap FieldInit.resolutions := by
  induction fields with
  | nil => rfl
  | cons f rest ih => simp [FieldInit.resolutionsAll, ih]

/-! ## Items -/

def ItemKind.signatureTypes : ItemKind → List TypeRef
  | .struct decl => decl.fields.map TypedName.ty
  | .fn decl => decl.params.map TypedName.ty ++ decl.ret.toList
  | .const decl => [decl.ty]

def ItemKind.bodyResolutions : ItemKind → List TypeRes
  | .struct _ => []
  | .fn decl => decl.body.resolutions
  | .const decl => decl.value.resolutions

/-- What the names in all types written in an item resolved to. -/
def Item.resolutions (item : Item) : List TypeRes :=
  TypeRef.resolutionsAll item.kind.signatureTypes ++ item.kind.bodyResolutions

/-- The generics of an item; only structs have some. -/
def ItemKind.generics : ItemKind → List GenericParam
  | .struct decl => decl.generics
  | _ => []

mutual

def TypeRef.isComplete : TypeRef → Bool
  | .unit _ => true
  | .infer _ => false
  | .path _ _ _ args => TypeRef.areComplete args

def TypeRef.areComplete : List TypeRef → Bool
  | [] => true
  | t :: ts => t.isComplete && TypeRef.areComplete ts

end

theorem TypeRef.areComplete_iff {ts : List TypeRef} :
    TypeRef.areComplete ts ↔ ∀ t ∈ ts, t.isComplete := by
  induction ts with
  | nil => simp [TypeRef.areComplete]
  | cons t ts ih => simp [TypeRef.areComplete, ih]

/-- Whether every name in a written type resolved to what it may: a struct item, or a generic of the
enclosing struct. Signatures are written completely. -/
structure Program.WellResolved (p : Program) : Prop where
  adt : ∀ item ∈ p.items, ∀ id, .adt id ∈ item.resolutions →
    ∃ s ∈ p.items, s.id = id ∧ ∃ decl, s.kind = .struct decl
  param : ∀ item ∈ p.items, ∀ id, .param id ∈ item.resolutions →
    id ∈ item.kind.generics.map (·.mark.id)
  complete : ∀ item ∈ p.items, ∀ t ∈ item.kind.signatureTypes, t.isComplete

/-- Whether a name in the item may have resolved to this. -/
def Program.offers (p : Program) (item : Item) : TypeRes → Bool
  | .builtin => true
  | .adt id => p.items.any fun s =>
      match s.kind with
      | .struct _ => s.id == id
      | _ => false
  | .param id => item.kind.generics.any (·.mark.id == id)

theorem Program.offers_adt_iff {p : Program} {item : Item} {id : NodeId} :
    p.offers item (.adt id) ↔ ∃ s ∈ p.items, s.id = id ∧ ∃ decl, s.kind = .struct decl := by
  rw [offers, List.any_eq_true]
  refine exists_congr fun s => and_congr_right fun _ => ?_
  cases s.kind <;> simp

theorem Program.offers_all_iff {p : Program} {item : Item} {ress : List TypeRes} :
    (∀ r ∈ ress, p.offers item r) ↔
      (∀ id, .adt id ∈ ress → ∃ s ∈ p.items, s.id = id ∧ ∃ decl, s.kind = .struct decl) ∧
        ∀ id, .param id ∈ ress → id ∈ item.kind.generics.map (·.mark.id) := by
  constructor
  · intro h
    exact ⟨fun id hid => offers_adt_iff.1 (h _ hid), fun id hid => by simpa [offers] using h _ hid⟩
  · rintro ⟨hadt, hparam⟩ r hr
    cases r with
    | builtin => rfl
    | adt id => exact offers_adt_iff.2 (hadt id hr)
    | param id => simpa [offers] using hparam id hr

theorem Program.wellResolved_iff {p : Program} :
    p.WellResolved ↔ ∀ item ∈ p.items,
      (∀ r ∈ item.resolutions, p.offers item r) ∧ ∀ t ∈ item.kind.signatureTypes, t.isComplete := by
  simp only [offers_all_iff]
  exact ⟨fun hp item hitem => ⟨⟨hp.adt item hitem, hp.param item hitem⟩, hp.complete item hitem⟩,
    fun h => ⟨fun item hitem => (h item hitem).1.1, fun item hitem => (h item hitem).1.2,
      fun item hitem => (h item hitem).2⟩⟩

instance (p : Program) : Decidable p.WellResolved :=
  decidable_of_iff' _ Program.wellResolved_iff

/-- The names in bodies are those of builtin types and of structs: an item with a body has no
generics. -/
theorem Program.WellResolved.body {p : Program} (hp : p.WellResolved) {item : Item}
    (hitem : item ∈ p.items) {r : TypeRes} (hr : r ∈ item.kind.bodyResolutions) :
    r = .builtin ∨ ∃ s ∈ p.items, r = .adt s.id ∧ ∃ decl, s.kind = .struct decl := by
  have hmem : r ∈ item.resolutions := List.mem_append_right _ hr
  cases r with
  | builtin => exact .inl rfl
  | adt id =>
      obtain ⟨s, hs, rfl, hstruct⟩ := hp.adt item hitem id hmem
      exact .inr ⟨s, hs, rfl, hstruct⟩
  | param id =>
      have hgeneric := hp.param item hitem id hmem
      cases hkind : item.kind with
      | struct decl => simp [hkind, ItemKind.bodyResolutions] at hr
      | fn decl => simp [hkind, ItemKind.generics] at hgeneric
      | const decl => simp [hkind, ItemKind.generics] at hgeneric

end TypeInference
