import Stencil.Proofs.Template.Opening

/-!
# Layouts

A layout is a template taken apart: characters that are no braces, and tokens, each with an
`Opening` and what stands in it.  Layouts are well formed by construction: what is written down from
one has the tokens of the layout, each where it stands in it.

Every token of a layout carries a tag, by which it can be told from others that are written alike.
-/

namespace Stencil.Template

open Stencil.Text

variable {α τ : Type}

/-! ## §1 Texts without braces -/

/-- Whether a character is a brace. -/
def isBrace (c : Char) : Bool := c == '{' || c == '}'

/-- Whether a text holds no brace. -/
def BraceFree (cs : List Char) : Prop := ∀ c ∈ cs, isBrace c = false

instance (cs : List Char) : Decidable (BraceFree cs) :=
  -- The characters of the text are gone through, and not all that there are.
  List.decidableBAll (fun c => isBrace c = false) cs

/-- A text without braces. -/
abbrev PlainText := { cs : List Char // BraceFree cs }

theorem ne_of_isBrace {c : Char} (h : isBrace c = false) : c ≠ '{' ∧ c ≠ '}' := by
  simpa [isBrace] using h

theorem braceFree_nil : BraceFree [] := by simp [BraceFree]

theorem BraceFree.head {c : Char} {cs : List Char} (h : BraceFree (c :: cs)) : isBrace c = false :=
  h c List.mem_cons_self

theorem BraceFree.tail {c : Char} {cs : List Char} (h : BraceFree (c :: cs)) : BraceFree cs :=
  fun d hd => h d (List.mem_cons_of_mem _ hd)

theorem braceFree_append {cs ds : List Char} :
    BraceFree (cs ++ ds) ↔ BraceFree cs ∧ BraceFree ds := by
  simp only [BraceFree, List.mem_append]
  constructor
  · exact fun h => ⟨fun c hc => h c (Or.inl hc), fun c hc => h c (Or.inr hc)⟩
  · rintro ⟨hcs, hds⟩ c (hc | hc)
    · exact hcs c hc
    · exact hds c hc

/-- A body that holds no token: it is read back in front of closing braces. -/
structure PlainBody where
  /-- The text. -/
  chars : List Char
  /-- It is read back. -/
  reads : ∀ rest, scanPlainBody (chars ++ '}' :: '}' :: rest) = some (chars, rest)

theorem scanPlainBody_braceFree {cs : List Char} (h : BraceFree cs) (rest : List Char) :
    scanPlainBody (cs ++ '}' :: '}' :: rest) = some (cs, rest) := by
  induction cs with
  | nil => simp [scanPlainBody]
  | cons c cs ih =>
    obtain ⟨hopen, hclose⟩ := ne_of_isBrace h.head
    rw [List.cons_append, scanPlainBody]
    · rw [ih h.tail]
      rfl
    · simp [hopen]
    · simp [hclose]

/-- A text without braces as a body. -/
def PlainBody.ofText (text : PlainText) : PlainBody :=
  ⟨text.1, scanPlainBody_braceFree text.2⟩

/-! ## §2 Layouts -/

/-- A place in a layout: a character that is no brace, or a token. -/
inductive Cell (τ : Type) where
  /-- A character. -/
  | char (c : Char) (plain : isBrace c = false)
  /-- A token. -/
  | token (t : τ)

/-- The places of a text without braces. -/
def charCells : (cs : List Char) → BraceFree cs → List (Cell τ)
  | [], _ => []
  | c :: cs, h => .char c h.head :: charCells cs h.tail

/-- The places of a text without braces. -/
def Cell.ofText (text : PlainText) : List (Cell τ) := charCells text.1 text.2

/-- A token without tokens in its body. -/
structure Leaf (α : Type) where
  /-- The tag. -/
  tag : α
  /-- The name and the arguments. -/
  opening : Opening
  /-- The body, if there is one. -/
  body : Option PlainBody

/-- What stands in a token after its name and arguments. -/
inductive Interior (α : Type) where
  /-- Nothing. -/
  | closed
  /-- A body without tokens. -/
  | plain (body : PlainBody)
  /-- A body that may hold tokens. -/
  | cells (body : List (Cell (Leaf α)))

/-- A token that stands in no other. -/
structure Node (α : Type) where
  /-- The tag. -/
  tag : α
  /-- The name and the arguments. -/
  opening : Opening
  /-- What follows those. -/
  interior : Interior α

/-- A template taken apart. -/
abbrev Layout (α : Type) := List (Cell (Node α))

/-! ## §3 Writing -/

/-- A token as it is written. -/
def Opening.write (o : Opening) : Option (List Char) → List Char
  | none => '{' :: '{' :: (o.chars ++ ['}', '}'])
  | some body => '{' :: '{' :: (o.chars ++ ':' :: (body ++ ['}', '}']))

/-- A place as it is written, given how its token is. -/
def Cell.write (w : τ → List Char) : Cell τ → List Char
  | char c _ => [c]
  | token t => w t

/-- Places as they are written. -/
def writeCells (w : τ → List Char) (cells : List (Cell τ)) : List Char :=
  cells.flatMap (Cell.write w)

/-- What tells a token of a layout from others, but for where it stands. -/
structure Head (α : Type) where
  /-- The tag. -/
  tag : α
  /-- The name and the arguments. -/
  opening : Opening
  /-- The body as it is written. -/
  body : Option (List Char)

/-- A head as it is written. -/
def Head.chars (h : Head α) : List Char := h.opening.write h.body

/-- The token that a head is at a byte position. -/
def Head.token (h : Head α) (pos : Nat) : Token :=
  { name := h.opening.name, args := h.opening.args, body := h.body.map .ofList,
    raw := .ofList h.chars, span := ⟨pos, pos + byteLength h.chars⟩ }

/-- The head of a token without tokens in its body. -/
def Leaf.head (t : Leaf α) : Head α := ⟨t.tag, t.opening, t.body.map (·.chars)⟩

/-- A leaf as it is written. -/
def Leaf.write (t : Leaf α) : List Char := t.head.chars

/-- An interior as it is written, if it is a body. -/
def Interior.chars? : Interior α → Option (List Char)
  | closed => none
  | plain body => some body.chars
  | cells body => some (writeCells Leaf.write body)

/-- The head of a token. -/
def Node.head (n : Node α) : Head α := ⟨n.tag, n.opening, n.interior.chars?⟩

/-- A token as it is written. -/
def Node.write (n : Node α) : List Char := n.head.chars

/-- A layout as it is written. -/
def Layout.write (l : Layout α) : List Char := writeCells Node.write l

@[simp] theorem Leaf.head_tag (t : Leaf α) : t.head.tag = t.tag := rfl
@[simp] theorem Leaf.head_opening (t : Leaf α) : t.head.opening = t.opening := rfl
@[simp] theorem Node.head_tag (n : Node α) : n.head.tag = n.tag := rfl
@[simp] theorem Node.head_opening (n : Node α) : n.head.opening = n.opening := rfl
@[simp] theorem Head.token_name (h : Head α) (pos : Nat) : (h.token pos).name = h.opening.name := rfl
@[simp] theorem Head.token_args (h : Head α) (pos : Nat) : (h.token pos).args = h.opening.args := rfl

@[simp] theorem writeCells_nil (w : τ → List Char) : writeCells w [] = [] := rfl

@[simp] theorem writeCells_char (w : τ → List Char) (c : Char) (h : isBrace c = false)
    (cells : List (Cell τ)) : writeCells w (.char c h :: cells) = c :: writeCells w cells := rfl

@[simp] theorem writeCells_token (w : τ → List Char) (t : τ) (cells : List (Cell τ)) :
    writeCells w (.token t :: cells) = w t ++ writeCells w cells := rfl

@[simp] theorem writeCells_append (w : τ → List Char) (cells cells' : List (Cell τ)) :
    writeCells w (cells ++ cells') = writeCells w cells ++ writeCells w cells' := by
  simp [writeCells]

@[simp] theorem writeCells_ofText (w : τ → List Char) (text : PlainText) :
    writeCells w (Cell.ofText text) = text.1 := by
  obtain ⟨cs, h⟩ := text
  induction cs with
  | nil => rfl
  | cons c cs ih => exact congrArg (c :: ·) (ih h.tail)

theorem mem_of_char_mem_ofText {text : PlainText} {c : Char} {hc : isBrace c = false}
    (h : (.char c hc : Cell τ) ∈ Cell.ofText text) : c ∈ text.1 := by
  obtain ⟨cs, hcs⟩ := text
  induction cs with
  | nil => exact absurd h List.not_mem_nil
  | cons d cs ih =>
    rcases List.mem_cons.1 h with heq | h
    · cases heq
      exact List.mem_cons_self
    · exact List.mem_cons_of_mem d (ih hcs.tail h)

/-! ## §4 Where tokens stand -/

/-- The tokens of some places that start at a byte position, each with where it stands. -/
def place (w : τ → List Char) : Nat → List (Cell τ) → List (τ × Nat)
  | _, [] => []
  | pos, .char c _ :: cells => place w (pos + c.utf8Size) cells
  | pos, .token t :: cells => (t, pos) :: place w (pos + byteLength (w t)) cells

/-- Where the body of a token starts that stands at a position. -/
def Opening.inside (o : Opening) (pos : Nat) : Nat := pos + byteLength ('{' :: '{' :: (o.chars ++ [':']))

/-- The heads in the body of a token at a position, each with where it stands. -/
def Node.nested (n : Node α) (pos : Nat) : List (Head α × Nat) :=
  match n.interior with
  | .cells body => (place Leaf.write (n.opening.inside pos) body).map fun (t, p) => (t.head, p)
  | _ => []

/-- The piece that a token at a position is. -/
def Node.piece (n : Node α) (pos : Nat) : Piece :=
  .token (n.head.token pos) ((n.nested pos).map fun (h, p) => h.token p)

/-- The heads of a layout that starts at a position, each with where it stands. -/
def Layout.marks (l : Layout α) (pos : Nat) : List (Head α × Nat) :=
  (place Node.write pos l).flatMap fun (n, p) => (n.head, p) :: n.nested p

theorem place_ofText_append (w : τ → List Char) (pos : Nat) (text : PlainText)
    (cells : List (Cell τ)) :
    place w pos (Cell.ofText text ++ cells) = place w (pos + byteLength text.1) cells := by
  obtain ⟨cs, h⟩ := text
  induction cs generalizing pos with
  | nil => rfl
  | cons c cs ih =>
    rw [byteLength_cons, ← Nat.add_assoc]
    exact ih (pos + c.utf8Size) h.tail

theorem place_ofText (w : τ → List Char) (pos : Nat) (text : PlainText) :
    place w pos (Cell.ofText text) = [] := by
  rw [← List.append_nil (Cell.ofText text), place_ofText_append, place]

theorem place_append (w : τ → List Char) (pos : Nat) (cells cells' : List (Cell τ)) :
    place w pos (cells ++ cells') =
      place w pos cells ++ place w (pos + byteLength (writeCells w cells)) cells' := by
  induction cells generalizing pos with
  | nil => rfl
  | cons cell cells ih =>
    cases cell with
    | char c h =>
      rw [List.cons_append, place, ih, place, writeCells_char, byteLength_cons, Nat.add_assoc]
    | token t =>
      rw [List.cons_append, place, ih, place, writeCells_token, byteLength_append, Nat.add_assoc,
        List.cons_append]

theorem place_add (w : τ → List Char) (pos k : Nat) (cells : List (Cell τ)) :
    place w (pos + k) cells = (place w pos cells).map fun (t, p) => (t, p + k) := by
  induction cells generalizing pos with
  | nil => rfl
  | cons cell cells ih =>
    cases cell with
    | char c h => rw [place, place, Nat.add_right_comm, ih]
    | token t => rw [place, place, Nat.add_right_comm, ih, List.map_cons]

theorem exists_of_mem_place {w : τ → List Char} {pos p : Nat} {cells : List (Cell τ)} {t : τ}
    (h : (t, p) ∈ place w pos cells) :
    ∃ before after, cells = before ++ .token t :: after ∧
      p = pos + byteLength (writeCells w before) := by
  induction cells generalizing pos with
  | nil => simp [place] at h
  | cons cell cells ih =>
    cases cell with
    | char c hc =>
      obtain ⟨before, after, rfl, rfl⟩ := ih h
      exact ⟨.char c hc :: before, after, rfl, by simp [Nat.add_assoc]⟩
    | token u =>
      rcases List.mem_cons.1 h with heq | h
      · obtain ⟨rfl, rfl⟩ := Prod.mk.inj heq
        exact ⟨[], cells, rfl, rfl⟩
      · obtain ⟨before, after, rfl, rfl⟩ := ih h
        exact ⟨.token u :: before, after, rfl, by simp [Nat.add_assoc]⟩

theorem bounds_of_mem_place {w : τ → List Char} {pos p : Nat} {cells : List (Cell τ)} {t : τ}
    (h : (t, p) ∈ place w pos cells) :
    pos ≤ p ∧ p + byteLength (w t) ≤ pos + byteLength (writeCells w cells) := by
  obtain ⟨before, after, rfl, rfl⟩ := exists_of_mem_place h
  simp only [writeCells_append, writeCells_token, byteLength_append]
  omega

end Stencil.Template
