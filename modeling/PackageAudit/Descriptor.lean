/-
Field and method descriptors (`I`, `[Ljava/lang/String;`, `(IJ)V`).

Inside class files a class is written with slashes (`java/util/Map$Entry`), elsewhere
with dots; the dotted form is its binary name.  In a descriptor an object type runs from
an `L` to the next `;`, and nothing else holds a class name.
-/
namespace PackageAudit.Descriptor

/-- The binary name of a class that is written with slashes. -/
def binaryName (internal : List Char) : String :=
  String.ofList (internal.map fun c => if c = '/' then '.' else c)

/-- The object types of a descriptor as they are written, in order and with repetitions.
A last type without its `;` is dropped. -/
def objectTypes : List Char → List (List Char)
  | [] => []
  | c :: rest =>
    if c = 'L' then
      match _h : rest.dropWhile (· ≠ ';') with
      | [] => []
      | _ :: after => rest.takeWhile (· ≠ ';') :: objectTypes after
    else objectTypes rest
termination_by text => text.length
decreasing_by
  · have := (List.dropWhile_suffix (l := rest) (· ≠ ';')).length_le
    rw [_h] at this
    simp only [List.length_cons] at this ⊢
    omega
  · simp

/-- The binary names of the object types of a descriptor.  Array dimensions are looked
through; primitive types and `void` name no class. -/
def referencedTypes (descriptor : String) : List String :=
  (objectTypes descriptor.toList).map binaryName

/-- The class that a class constant stands for: its binary name, or for an array its element
class.  An array of primitive values stands for none. -/
def classConstantType? (name : String) : Option String :=
  if name.toList.head? = some '[' then (referencedTypes name).head?
  else some (binaryName name.toList)

/-- The class of a descriptor that is a single object type (`Lcom/acme/Marker;`). -/
def objectType? (descriptor : String) : Option String :=
  match descriptor.toList with
  | 'L' :: rest => if rest.getLast? = some ';' then some (binaryName rest.dropLast) else none
  | _ => none

end PackageAudit.Descriptor
