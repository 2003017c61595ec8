import TensorStorage.Tensor.Basic
import TensorStorage.Walk.Traversal
/-!
# Tensors as text

A heading with name, dimensions, kind and format, and then a line for each stored entry, or one line that says how many
records wait.  If the levels do not nest, writing stops after the heading.
-/
namespace TensorStorage.Tensor

def heading (t : Tensor) : String :=
  t.name ++ " (" ++ "x".intercalate (t.dimensions.map toString) ++ ") " ++ t.dtype.name ++ " " ++ t.format.text ++ ":\n"

def entryLine (e : Entry) : String := "  " ++ e.coordinate.text ++ ": " ++ e.value.text ++ "\n"

/-- The tensor as text, or what was written before writing failed. -/
def text (t : Tensor) : Except String String :=
  match t.storage? with
  | none => .ok (t.heading ++ s!"  <unpacked, {t.pending} pending>\n")
  | some s =>
    match s.entries t.format with
    | .ok entries => .ok (t.heading ++ String.join (entries.map entryLine))
    | .error _ => .error t.heading

end TensorStorage.Tensor
