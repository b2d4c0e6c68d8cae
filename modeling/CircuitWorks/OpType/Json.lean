import CircuitWorks.Json.Basic
import CircuitWorks.OpType

namespace CircuitWorks.OpType

def wireNames : List (String × EdgeType) :=
  [("n_qubits", .quantum), ("n_boolean", .boolean), ("n_classical", .classical)]

def classNames : List (String × (OpType → Bool)) :=
  [("is_meta", isMeta), ("is_box", isBox), ("is_gate", isGate), ("is_flowop", isFlow),
   ("is_classical", isClassical), ("is_rotation", isRotation), ("is_oneway", isOneWay),
   ("is_singleq_unitary", isSingleQubitUnitary), ("is_clifford", isClifford),
   ("is_pauli_rotation", isPauliRotation), ("is_multi_qubit", isMultiQubit),
   ("is_single_qubit", isSingleQubit), ("is_projective", isProjective),
   ("is_initial_q", isInitialQ), ("is_final_q", isFinalQ), ("is_boundary_q", isBoundaryQ),
   ("is_boundary_c", isBoundaryC)]

def toJson (number : Nat) (type : OpType) : Json :=
  .obj ([("value", .ofNat number), ("name", .str type.name), ("latex", .str type.info.latex),
    ("n_params", .ofNat type.paramCount), ("param_mod", .arr (type.info.moduli.map .ofNat)),
    ("signature",
      .ofOption (fun es => .str (String.ofList (es.map EdgeType.letter))) type.signature)] ++
    (wireNames.map fun (k, e) => (k, .ofOption Json.ofNat (type.wireCount e))) ++
    classNames.map fun (k, f) => (k, .bool (f type)))

end CircuitWorks.OpType
