import TypeInference.Check.Program
import TypeInference.Diagnostic.Snippet
import TypeInference.Program.Builder
import TypeInference.Proofs.Check.DeclarationOrder
import TypeInference.Proofs.Check.Defects
import TypeInference.Proofs.Check.ExactTypings
import TypeInference.Proofs.Check.FallbackEffect
import TypeInference.Proofs.Check.FieldOrder
import TypeInference.Proofs.Check.GroundSignatures
import TypeInference.Proofs.Check.HardErrors
import TypeInference.Proofs.Check.Instances
import TypeInference.Proofs.Check.ItemOrder
import TypeInference.Proofs.Check.LiteralFindings
import TypeInference.Proofs.Check.Lowerable
import TypeInference.Proofs.Check.Operands
import TypeInference.Proofs.Check.ReportedOnce
import TypeInference.Proofs.Check.Resolved
import TypeInference.Proofs.Check.Rewriting
import TypeInference.Proofs.Check.SignatureMeaning
import TypeInference.Proofs.Check.SignatureVerdict
import TypeInference.Proofs.Check.Soundness
import TypeInference.Proofs.Context.Failure
import TypeInference.Proofs.Context.FreshInstance
import TypeInference.Proofs.Context.Order
import TypeInference.Proofs.Diagnostic.Pointing
import TypeInference.Proofs.Ty.Text
import TypeInference.Report.TypeTable
