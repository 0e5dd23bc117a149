/-!
# File contents

What a write and a change of the length make of the bytes of a file.

* `overlay`: bytes written at a position; `withLength`: a new length;
* `overlay_end`: a write at the end appends; `withLength_append`: a cut leaves the front.
-/

namespace BehaviorGraph

/-- Content with `bytes` written at `position`. A gap before them is filled with zeros. -/
def overlay (content : List UInt8) (position : Nat) (bytes : List UInt8) : List UInt8 :=
  if bytes = [] then content else
    content.take position ++ List.replicate (position - content.length) 0 ++ bytes ++
      content.drop (position + bytes.length)

/-- Content cut or filled with zeros to the given length. -/
def withLength (content : List UInt8) (length : Nat) : List UInt8 :=
  content.take length ++ List.replicate (length - content.length) 0

theorem withLength_append (kept cut : List UInt8) :
    withLength (kept ++ cut) kept.length = kept := by
  simp [withLength]

@[simp] theorem overlay_nil (content : List UInt8) (position : Nat) :
    overlay content position [] = content := if_pos rfl

theorem overlay_end (content bytes : List UInt8) :
    overlay content content.length bytes = content ++ bytes := by
  cases bytes <;> simp [overlay]

end BehaviorGraph
