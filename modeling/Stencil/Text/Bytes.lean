/-!
# Texts measured in UTF-8 bytes

Offsets into a text count the bytes of its UTF-8 encoding.  A cut keeps whole characters: it takes
the longest piece of at most the given number of bytes.

Main statements: `takeBytes_append_dropBytes` (a cut loses nothing), `byteLength_takeBytes_le` (it
keeps the limit) and `takeBytes_append` (a cut at the end of a first part gives that part back).
-/

namespace Stencil.Text

/-- The length of the UTF-8 encoding. -/
def byteLength : List Char → Nat
  | [] => 0
  | c :: cs => c.utf8Size + byteLength cs

/-- The longest part at the start that has at most `n` bytes. -/
def takeBytes (n : Nat) (cs : List Char) : List Char :=
  go n cs []
where
  go (n : Nat) (cs acc : List Char) : List Char :=
    match cs with
    | [] => acc.reverse
    | c :: rest => if c.utf8Size ≤ n then go (n - c.utf8Size) rest (c :: acc) else acc.reverse

/-- What follows the longest part at the start that has at most `n` bytes. -/
def dropBytes (n : Nat) : List Char → List Char
  | [] => []
  | c :: rest => if c.utf8Size ≤ n then dropBytes (n - c.utf8Size) rest else c :: rest

@[simp] theorem byteLength_nil : byteLength [] = 0 := rfl

@[simp] theorem byteLength_cons (c : Char) (cs : List Char) :
    byteLength (c :: cs) = c.utf8Size + byteLength cs := rfl

@[simp] theorem byteLength_append (a b : List Char) :
    byteLength (a ++ b) = byteLength a + byteLength b := by
  induction a with
  | nil => simp
  | cons c a ih => rw [List.cons_append, byteLength_cons, byteLength_cons, ih, Nat.add_assoc]

theorem takeBytes_go (n : Nat) (cs acc : List Char) :
    takeBytes.go n cs acc = acc.reverse ++ takeBytes n cs := by
  induction cs generalizing n acc with
  | nil => simp [takeBytes, takeBytes.go]
  | cons c rest ih =>
    simp only [takeBytes, takeBytes.go]
    split
    · rw [ih, ih _ [c]]; simp
    · simp

@[simp] theorem takeBytes_nil (n : Nat) : takeBytes n [] = [] := rfl

/-- A cut takes a character when it fits. -/
theorem takeBytes_cons (n : Nat) (c : Char) (cs : List Char) :
    takeBytes n (c :: cs) = if c.utf8Size ≤ n then c :: takeBytes (n - c.utf8Size) cs else [] := by
  simp only [takeBytes, takeBytes.go]
  split
  · rw [takeBytes_go]; rfl
  · rfl

/-- A cut loses nothing. -/
@[simp] theorem takeBytes_append_dropBytes (n : Nat) (cs : List Char) :
    takeBytes n cs ++ dropBytes n cs = cs := by
  induction cs generalizing n with
  | nil => rfl
  | cons c rest ih =>
    rw [takeBytes_cons, dropBytes]
    split
    · rw [List.cons_append, ih]
    · rfl

/-- A cut keeps the limit. -/
theorem byteLength_takeBytes_le (n : Nat) (cs : List Char) : byteLength (takeBytes n cs) ≤ n := by
  induction cs generalizing n with
  | nil => simp
  | cons c rest ih =>
    rw [takeBytes_cons]
    split
    · have := ih (n - c.utf8Size)
      simp only [byteLength_cons]
      omega
    · simp

/-- A cut at the end of a first part gives that part. -/
@[simp] theorem takeBytes_append (a b : List Char) : takeBytes (byteLength a) (a ++ b) = a := by
  induction a with
  | nil =>
    cases b with
    | nil => rfl
    | cons c rest =>
      have := c.utf8Size_pos
      simp [takeBytes_cons]
      omega
  | cons c rest ih => simp [takeBytes_cons, ih]

/-- A cut at the end of a first part leaves the second. -/
@[simp] theorem dropBytes_append (a b : List Char) : dropBytes (byteLength a) (a ++ b) = b := by
  have h := takeBytes_append_dropBytes (byteLength a) (a ++ b)
  rw [takeBytes_append] at h
  exact List.append_cancel_left h

end Stencil.Text
