import Stencil.Proofs.Flow
import Stencil.Proofs.Template.Cover

/-!
# Branches and the Tokens in Them

A body is cut at its first colon outside double braces, and what stands in double braces is found by
counting pairs.  The tokens of the body are found by the grammar, where a pair of braces in quotes is part
of an argument.  Both agree as long as the count is back where it was at the end of every token in front of
the cut: so in particular if no pair stands in quotes there.

Main statements: `branches_outside` and `not_cutOutside_closing`.
-/

namespace Stencil.Flow

open Stencil.Text Stencil.Template

/-! ## §1 Cuts outside of tokens -/

/-- A colon of a text at a byte position that lies outside of some tokens: what is before and behind. -/
def ColonOutside (pos : Nat) (nested : List Token) (cs before after : List Char) : Prop :=
  cs = before ++ ':' :: after ∧ ∀ u ∈ nested,
    ¬(u.span.start ≤ pos + byteLength before ∧ pos + byteLength before < u.span.stop)

/-- A text is cut at its first colon outside of some tokens, or, without such a colon, kept whole. -/
inductive CutOutside (pos : Nat) (nested : List Token) (cs : List Char) :
    List Char → List Char → Prop
  /-- At a colon, with none before it. -/
  | colon {yes no : List Char} (here : ColonOutside pos nested cs yes no)
      (first : ∀ before after, ColonOutside pos nested cs before after →
        yes.length ≤ before.length) : CutOutside pos nested cs yes no
  /-- Not at all. -/
  | whole (none : ∀ before after, ¬ColonOutside pos nested cs before after) :
      CutOutside pos nested cs cs []

/-- A colon that lies behind the first of two parts is one of the second. -/
theorem exists_behind {first rest before after : List Char}
    (hbehind : ':' ∉ first ∨ byteLength first ≤ byteLength before)
    (h : first ++ rest = before ++ ':' :: after) :
    ∃ before', before = first ++ before' ∧ rest = before' ++ ':' :: after := by
  rcases List.append_eq_append_iff.1 h with ⟨before', hbefore, hrest⟩ | ⟨mid, rfl, hmid⟩
  · exact ⟨before', hbefore, hrest⟩
  · cases mid with
    | nil => exact ⟨[], by simp, hmid.symm⟩
    -- Here the colon lies in the first part, and that reaches behind it.
    | cons c mid =>
      obtain ⟨rfl, -⟩ := List.cons.inj hmid
      have := ':'.utf8Size_pos
      simp only [byteLength_append, byteLength_cons] at hbehind
      rcases hbehind with hcolon | hle
      · exact absurd (by simp) hcolon
      · omega

/-- The first colon of all is the first outside of tokens behind it. -/
theorem CutOutside.of_first {pos : Nat} {nested : List Token} {yes : List Char} (hcolon : ':' ∉ yes)
    (no : List Char) (hbehind : ∀ u ∈ nested, pos + byteLength yes < u.span.start) :
    CutOutside pos nested (yes ++ ':' :: no) yes no := by
  refine .colon ⟨rfl, fun u hu hin => ?_⟩ fun before after h => ?_
  · have := hbehind u hu
    omega
  · obtain ⟨before', rfl, -⟩ := exists_behind (.inl hcolon) h.1
    rw [List.length_append]
    exact Nat.le_add_right _ _

/-- Behind a text without colons and a token, the colons outside are those of the rest. -/
theorem colonOutside_iff {pos : Nat} {t : Token} {nested : List Token}
    {text w rest before after : List Char} (hcolon : ':' ∉ text)
    (hspan : t.span = ⟨pos + byteLength text, pos + byteLength text + byteLength w⟩) :
    ColonOutside pos (t :: nested) (text ++ (w ++ rest)) before after ↔ ∃ before',
      before = text ++ (w ++ before') ∧
        ColonOutside (pos + byteLength text + byteLength w) nested rest before' after := by
  have hpos (before' : List Char) : pos + byteLength (text ++ (w ++ before')) =
      pos + byteLength text + byteLength w + byteLength before' := by
    rw [byteLength_append, byteLength_append]
    omega
  constructor
  · rintro ⟨hsplit, houtside⟩
    rw [List.forall_mem_cons, hspan] at houtside
    obtain ⟨mid, rfl, hmid⟩ := exists_behind (.inl hcolon) hsplit
    -- It is behind the text, so it is outside of the token only behind that.
    have hle : byteLength w ≤ byteLength mid := by
      have := houtside.1
      rw [byteLength_append] at this
      dsimp only at this
      omega
    obtain ⟨before', rfl, hrest⟩ := exists_behind (.inr hle) hmid
    rw [hpos] at houtside
    exact ⟨before', rfl, hrest, houtside.2⟩
  · rintro ⟨before', rfl, rfl, hothers⟩
    refine ⟨by simp, ?_⟩
    rw [List.forall_mem_cons, hspan, hpos]
    exact ⟨by dsimp only; omega, hothers⟩

/-- So the text is cut where the rest is. -/
theorem CutOutside.behind {pos : Nat} {t : Token} {nested : List Token}
    {text w rest yes no : List Char} (hcolon : ':' ∉ text)
    (hspan : t.span = ⟨pos + byteLength text, pos + byteLength text + byteLength w⟩)
    (h : CutOutside (pos + byteLength text + byteLength w) nested rest yes no) :
    CutOutside pos (t :: nested) (text ++ (w ++ rest)) (text ++ (w ++ yes)) no := by
  have hiff := fun before after => @colonOutside_iff pos t nested text w rest before after hcolon hspan
  cases h with
  | colon here first =>
    refine .colon ((hiff _ _).2 ⟨yes, rfl, here⟩) fun before after hbefore => ?_
    obtain ⟨before', rfl, hrest⟩ := (hiff _ _).1 hbefore
    have := first before' after hrest
    simp only [List.length_append]
    omega
  | whole hnone =>
    refine .whole fun before after hbefore => ?_
    obtain ⟨before', -, hbefore⟩ := (hiff _ _).1 hbefore
    exact hnone before' after hbefore

/-! ## §2 Counting pairs of braces -/

/-- The depth behind a text, counting pairs of braces, if no colon stands at depth zero in it. -/
def depthAfter (depth : Nat) : List Char → Option Nat
  | [] => some depth
  | '{' :: '{' :: rest => depthAfter (depth + 1) rest
  | '}' :: '}' :: rest => depthAfter (depth - 1) rest
  | c :: rest => if c = ':' && depth = 0 then none else depthAfter depth rest

/-- What stands between the braces of a token. -/
def inside (t : Token) : List Char := (t.raw.toList.drop 2).dropLast.dropLast

/-- Whether counting pairs of braces leads from behind the opening braces of a token to the same depth in
front of its closing ones, with no colon at depth zero on the way. -/
def Level (t : Token) : Prop := depthAfter 1 (inside t) = some 1

/-- A text that starts no pair starts none in front of a character either, unless that is a brace behind a
single one. -/
theorem not_startsPair_append {b c d : Char} {v : List Char} (h : ¬StartsPair b (c :: v))
    (hlone : v = [] → c = b → b ≠ d) (rest : List Char) : ¬StartsPair b (c :: (v ++ d :: rest)) := by
  cases v with
  | nil =>
    rintro ⟨tail, heq⟩
    simp only [List.nil_append, List.cons.injEq] at heq
    exact hlone rfl heq.1 heq.2.1.symm
  | cons e v => simpa [StartsPair] using h

/-- A text is passed over, to the depth behind it.  It must not end in a closing brace, since that would
make a pair with the one behind it. -/
theorem cutAtColon_of_depthAfter {depth after : Nat} {v : List Char}
    (h : depthAfter depth v = some after) (hlast : v.getLast? ≠ some '}') (rest : List Char) :
    cutAtColon depth (v ++ '}' :: rest) =
      (cutAtColon after ('}' :: rest)).map fun (yes, no) => (v ++ yes, no) := by
  have htail {c : Char} {v : List Char} (hlast : (c :: v).getLast? ≠ some '}') :
      v.getLast? ≠ some '}' := by
    intro hv
    rw [List.getLast?_cons, hv] at hlast
    exact hlast rfl
  have hlone {b c : Char} {v : List Char} (hlast : (c :: v).getLast? ≠ some '}') :
      v = [] → c = b → b ≠ '}' := by
    rintro rfl rfl rfl
    exact hlast rfl
  -- Both functions read the text in the same steps, pair by pair or character by character.
  fun_induction depthAfter depth v with
  | case1 depth =>
    obtain rfl := Option.some.inj h
    exact Option.map_id'.symm
  | case2 depth v ih | case3 depth v ih =>
    rw [List.cons_append, List.cons_append, cutAtColon, ih h (htail (htail hlast)), Option.map_map]
    rfl
  | case4 => exact absurd h (by simp)
  | case5 depth c v hopen hclose hcolon ih =>
    -- The character makes no pair with the brace behind the text either.
    rw [← not_startsPair_iff] at hopen hclose
    rw [List.cons_append, cutAtColon_cons (not_startsPair_append hopen (hlone hlast) rest)
      (not_startsPair_append hclose (hlone hlast) rest), if_neg hcolon, ih h (htail hlast), Option.map_map]
    rfl

theorem depthAfter_of_noPair {depth : Nat} {v : List Char} (h : NoPair v) (hdepth : depth ≠ 0) :
    depthAfter depth v = some depth := by
  induction v with
  | nil => rfl
  | cons c v ih =>
    obtain ⟨hopen, hclose, hpair⟩ := noPair_cons_iff.1 h
    rw [not_startsPair_iff] at hopen hclose
    rw [depthAfter, ih hpair]
    · simp [hdepth]
    · exact hopen
    · exact hclose

/-! ## §3 Tokens in a body -/

theorem noPair_left {cs ds : List Char} (h : NoPair (cs ++ ds)) : NoPair cs :=
  have hinfix := (List.prefix_append cs ds).isInfix
  ⟨fun hopen => h.1 (hopen.trans hinfix), fun hclose => h.2 (hclose.trans hinfix)⟩

theorem noPair_append_colon {front text : List Char} (hfront : NoPair front) (htext : NoPair text) :
    NoPair (front ++ ':' :: text) := by
  induction front with
  | nil => exact noPair_cons_iff.2 ⟨by simp [StartsPair], by simp [StartsPair], htext⟩
  | cons c front ih =>
    obtain ⟨hopen, hclose, hfront⟩ := noPair_cons_iff.1 hfront
    exact noPair_cons_iff.2 ⟨not_startsPair_append hopen (fun _ _ => by decide) text,
      not_startsPair_append hclose (fun _ _ => by decide) text, ih hfront⟩

theorem inside_of_raw {t : Token} {front : List Char} {body : Option (List Char)}
    (h : t.raw.toList = braced front body) :
    inside t = body.elim front fun text => front ++ ':' :: text := by
  have hdrop (cs : List Char) : (cs ++ ['}', '}']).dropLast.dropLast = cs := by
    rw [List.append_cons cs '}' ['}'], List.dropLast_concat, List.dropLast_concat]
  rw [inside, h]
  cases body with
  | none => exact hdrop front
  | some text => simpa [braced] using hdrop (front ++ ':' :: text)

theorem getLast?_ne_of_forall {p : Char → Bool} {cs : List Char} (h : ∀ c ∈ cs, p c = true) {d : Char}
    (hd : p d = false) : cs.getLast? ≠ some d := by
  intro hlast
  rw [h d (List.mem_of_getLast? hlast)] at hd
  exact Bool.noConfusion hd

theorem getLast?_append_ne {d : Char} {as bs : List Char} (has : as.getLast? ≠ some d)
    (hbs : bs.getLast? ≠ some d) : (as ++ bs).getLast? ≠ some d := by
  rw [List.getLast?_append]
  cases hlast : bs.getLast? with
  | none => exact has
  | some e => rwa [Option.some_or, ← hlast]

theorem getLast?_writtenArgument {w : List Char} {a : Argument} (h : WrittenArgument w a) :
    w.getLast? ≠ some '}' := by
  have hbare {w : List Char} (hchars : ∀ c ∈ w, isBareChar c = true) : w.getLast? ≠ some '}' :=
    getLast?_ne_of_forall hchars (by decide)
  have hquoted (w : List Char) : ('"' :: (w ++ ['"'])).getLast? ≠ some '}' := by
    rw [← List.cons_append, List.getLast?_append]
    simp
  cases h with
  | quoted _ => exact hquoted _
  | word _ hchars => exact hbare hchars
  -- Whatever the key is, an equals sign stands behind it.
  | @named key w _ hne hkey h =>
    rw [List.append_cons key '=' w]
    refine getLast?_append_ne (by simp) ?_
    cases h with
    | quoted _ => exact hquoted _
    | bare hchars => exact hbare hchars

theorem getLast?_writtenHeader {front : List Char} {name : String} {args : Arguments}
    (h : WrittenHeader front name args) : front.getLast? ≠ some '}' := by
  obtain ⟨hvalid, harguments, -⟩ := h
  simp only [isValidName, Bool.and_eq_true, List.all_eq_true] at hvalid
  refine getLast?_append_ne (getLast?_ne_of_forall hvalid.2 (by decide)) ?_
  induction harguments with
  | nil hblanks => exact getLast?_ne_of_forall hblanks (by decide)
  | cons _ hblanks first _ ih =>
    exact getLast?_append_ne (getLast?_ne_of_forall hblanks (by decide))
      (getLast?_append_ne (getLast?_writtenArgument first) ih)

theorem getLast?_of_noPair {text : List Char} (h : NoPair (text ++ ['}'])) :
    text.getLast? ≠ some '}' := by
  intro hlast
  obtain ⟨text, rfl⟩ := List.getLast?_eq_some_iff.1 hlast
  exact h.2 ⟨text, [], by simp⟩

theorem getLast?_inside {pos : Nat} {w : List Char} {t : Token} (h : WrittenInner pos w t) :
    (inside t).getLast? ≠ some '}' := by
  have hraw := h.raw_eq
  cases h with
  | closed header =>
    rw [inside_of_raw hraw]
    exact getLast?_writtenHeader header
  | @body front text _ _ _ _ plain =>
    rw [inside_of_raw hraw, Option.elim_some, List.append_cons front ':' text]
    exact getLast?_append_ne (by simp) (getLast?_of_noPair plain.1)

theorem cutAtColon_token {pos : Nat} {w : List Char} {t : Token} (h : WrittenInner pos w t)
    (hlevel : Level t) (rest : List Char) :
    cutAtColon 0 (w ++ rest) = (cutAtColon 0 rest).map fun (yes, no) => (w ++ yes, no) := by
  have hw : w = '{' :: '{' :: (inside t ++ ['}', '}']) := by
    have hraw := h.raw_eq
    cases h <;> simp [inside_of_raw hraw, braced]
  -- The braces of the token lead to depth one and back.
  have hcut := cutAtColon_of_depthAfter hlevel (getLast?_inside h) ('}' :: rest)
  have happend : w ++ rest = '{' :: '{' :: (inside t ++ '}' :: '}' :: rest) := by simp [hw]
  rw [happend, cutAtColon, hcut, cutAtColon, Option.map_map, Option.map_map, hw]
  simp [Function.comp_def]

/-- A token that holds no others is level if no pair of braces stands in front of its body. -/
theorem level_of_noPair {cs front : List Char} {p : Nat} {u : Token} (h : TokenAt 0 cs p u [])
    (hstands : Stands cs front u) (hfront : NoPair front) : Level u := by
  have hinside := inside_of_raw hstands.written
  rw [Level, hinside]
  obtain ⟨_, _, _, -, -, hw⟩ := h
  cases hw with
  | closed _ => exact depthAfter_of_noPair hfront Nat.one_ne_zero
  | @body _ text _ _ _ _ inner =>
    simp only [tokenAt, Option.map_some, Option.elim_some, String.toList_ofList]
    cases inner with
    | last hpair =>
      exact depthAfter_of_noPair (noPair_append_colon hfront (noPair_left hpair)) Nat.one_ne_zero

/-! ## §4 Bodies -/

/-- Whether a token lies in front of all colons of a text outside of some tokens. -/
def InFront (pos : Nat) (nested : List Token) (cs : List Char) (u : Token) : Prop :=
  ∀ before after, ColonOutside pos nested cs before after → u.span.stop ≤ pos + byteLength before

/-- What a text is cut into. -/
def cut (cs : List Char) : List Char × List Char := (cutAtColon 0 cs).getD (cs, [])

theorem branches_eq (body : String) :
    branches body = (.ofList (cut body.toList).1, .ofList (cut body.toList).2) := by
  rw [branches, cut]
  cases cutAtColon 0 body.toList with
  | none => simp
  | some halves => rfl

/-- A colon before all tokens is the cut, whatever comes behind it. -/
theorem cutOutside_of_mem {pos : Nat} {text : List Char} {d : Char} {nested : List Token}
    (hpair : NoPair (text ++ [d])) (hcolon : ':' ∈ text)
    (hbehind : ∀ u ∈ nested, pos + byteLength text ≤ u.span.start) (rest : List Char) :
    CutOutside pos nested (text ++ rest) (cut (text ++ rest)).1 (cut (text ++ rest)).2 := by
  obtain ⟨yes, no, rfl, hyes⟩ := List.eq_append_cons_of_mem hcolon
  have hpair' : NoPair (yes ++ [':']) := by
    rw [List.append_cons yes ':' no, List.append_assoc] at hpair
    exact noPair_left hpair
  have hcut : cut (yes ++ ':' :: (no ++ rest)) = (yes, no ++ rest) := by
    rw [cut, cutAtColon_append hpair' hyes, Option.getD_some]
  rw [List.append_assoc, List.cons_append, hcut]
  refine .of_first hyes _ fun u hu => ?_
  have hle := hbehind u hu
  have := ':'.utf8Size_pos
  simp only [byteLength_append, byteLength_cons] at hle
  omega

/-- Behind a text without colons and a level token, the rest is cut. -/
theorem cut_token {pos : Nat} {text w rest : List Char} {t : Token} (hpair : NoPair (text ++ ['{']))
    (hcolon : ':' ∉ text) (first : WrittenInner pos w t) (hlevel : Level t) :
    cut (text ++ (w ++ rest)) = (text ++ (w ++ (cut rest).1), (cut rest).2) := by
  have htoken := cutAtColon_token first hlevel rest
  obtain ⟨tail, rfl⟩ := first.exists_cons
  rw [List.cons_append] at htoken ⊢
  rw [cut, cutAtColon_pass hpair fun _ => hcolon, htoken, Option.map_map, cut]
  cases cutAtColon 0 rest <;> simp

/-- A body is cut at its first colon outside of the tokens in it, if those in front of that are level. -/
theorem cutOutside_of_written {pos : Nat} {text : List Char} {nested : List Token}
    (h : WrittenBody pos text nested) (hlevel : ∀ u ∈ nested, InFront pos nested text u → Level u) :
    CutOutside pos nested text (cut text).1 (cut text).2 := by
  induction h with
  | @last pos text hpair =>
    by_cases hcolon : ':' ∈ text
    · simpa using cutOutside_of_mem hpair hcolon (by simp) []
    · rw [cut, cutAtColon_of_not_mem (noPair_left hpair) hcolon]
      refine .whole fun before after hbefore => hcolon ?_
      rw [hbefore.1]
      simp
  | @token pos text w rest t nested hpair first others ih =>
    have hspan := first.span_eq
    by_cases hcolon : ':' ∈ text
    · refine cutOutside_of_mem hpair hcolon (List.forall_mem_cons.2 ⟨by rw [hspan], fun u hu => ?_⟩) _
      have := (others.flat u hu).bounds
      omega
    -- A token in front of the colons outside of the rest is so too for the whole, and the first one is.
    · have hiff := fun before after =>
        @colonOutside_iff pos t nested text w rest before after hcolon hspan
      have hfirst : Level t := by
        refine hlevel t List.mem_cons_self fun before after hbefore => ?_
        obtain ⟨before', rfl, -⟩ := (hiff _ _).1 hbefore
        rw [hspan, byteLength_append, byteLength_append]
        dsimp only
        omega
      rw [cut_token hpair hcolon first hfirst]
      refine (ih fun u hu hfront => hlevel u (List.mem_cons_of_mem t hu) ?_).behind hcolon hspan
      intro before after hbefore
      obtain ⟨before', rfl, hbefore'⟩ := (hiff _ _).1 hbefore
      have := hfront before' after hbefore'
      rw [byteLength_append, byteLength_append]
      omega

/-- Where the body of a token starts: as many bytes before its closing braces as it has. -/
def bodyPos (t : Token) : Nat := t.span.stop - 2 - byteLength t.bodyText.toList

/-- The body of a token is cut at its first colon outside of the tokens in it, if those in front of that
are level. -/
theorem cutOutside_of_tokenAt {cs : List Char} {p : Nat} {t : Token} {nested : List Token}
    {body : String} (h : TokenAt 0 cs p t nested) (hbody : t.body = some body)
    (hlevel : ∀ u ∈ nested, InFront (bodyPos t) nested body.toList u → Level u) :
    CutOutside (bodyPos t) nested body.toList (branches body).1.toList
      (branches body).2.toList := by
  obtain ⟨_, _, _, -, -, hw⟩ := h
  cases hw with
  | closed _ => exact absurd hbody (by simp [tokenAt])
  | @body front text name args _ _ inner =>
    obtain rfl : String.ofList text = body := Option.some.inj hbody
    -- Counted back from the end of the token, its body starts where the grammar has it.
    have hpos : bodyPos (tokenAt p front name args (some text)) = bodyStart p front := by
      have hclose : '}'.utf8Size = 1 := rfl
      simp only [bodyPos, tokenAt, Token.bodyText, Option.map_some, Option.getD_some,
        String.toList_ofList, bodyStart, braced, byteLength_cons, byteLength_append,
        byteLength_nil, hclose]
      omega
    rw [hpos, String.toList_ofList] at hlevel ⊢
    rw [branches_eq, String.toList_ofList, String.toList_ofList, String.toList_ofList]
    exact cutOutside_of_written inner hlevel

/-- **Bodies are cut outside of the tokens in them.**  The body of a token is cut at its first colon outside
of the tokens in it, or kept whole without one, if each token in front of that colon is level: if counting
pairs of braces leads back to where it started.  A token is level if no pair stands between its name and its
body, so only quoted arguments may lead to another cut.  The body of a token in a body, which holds no
tokens, is cut at its first colon in any case. -/
theorem branches_outside {source : String} {t : Token} {nested : List Token} {body : String}
    (ht : .token t nested ∈ pieces source) (hbody : t.body = some body) :
    ((∀ u ∈ nested, InFront (bodyPos t) nested body.toList u → Level u) →
      CutOutside (bodyPos t) nested body.toList (branches body).1.toList (branches body).2.toList) ∧
    (∀ u ∈ nested, ∃ front, Stands source.toList front u ∧ (NoPair front → Level u)) ∧
    ∀ u ∈ nested, ∀ text, u.body = some text →
      CutOutside (bodyPos u) [] text.toList (branches text).1.toList (branches text).2.toList := by
  have hat := (cut_pieces source).tokenAt ht
  obtain ⟨front, -, hnests⟩ := hat.stands
  refine ⟨cutOutside_of_tokenAt hat hbody, fun u hu => ?_, fun u hu text htext => ?_⟩
  · have hflat := hnests.flat u hu
    obtain ⟨front', hstands, -⟩ := hflat.stands
    exact ⟨front', hstands, level_of_noPair hflat hstands⟩
  · exact cutOutside_of_tokenAt (hnests.flat u hu) htext (by simp)

/-- A token with a quoted argument. -/
def quoting (text : String) : String := "\x7b\x7bignore \"" ++ text ++ "\":x\x7d\x7d"

/-- A choice whose first branch is such a token. -/
def choosing (text : String) : String := "\x7b\x7bimages:" ++ quoting text ++ ":no\x7d\x7d"

/-- A pair of closing braces in quotes does not matter behind one of opening braces. -/
theorem branches_outside_balanced : ∃ t inner, .token t [inner] ∈ pieces (choosing "{{:}}") ∧
    t.body = some (quoting "{{:}}" ++ ":no") ∧ Level inner ∧
    CutOutside (bodyPos t) [inner] (quoting "{{:}}" ++ ":no").toList (quoting "{{:}}").toList
      "no".toList := by
  obtain ⟨t, inner, hmem, ht, hinner⟩ :=
    exists_pair_of_view (fun t => (t.body, t.raw)) (by decide +kernel :
      (pieces (choosing "{{:}}")).map (fun piece => piece.tokens.map fun t => (t.body, t.raw)) =
        [[(some (quoting "{{:}}" ++ ":no"), choosing "{{:}}"), (some "x", quoting "{{:}}")]])
  have hbody := (Prod.mk.inj ht).1
  have hlevel : Level inner := by
    rw [Level, inside, (Prod.mk.inj hinner).2]
    decide +kernel
  have hcut := (branches_outside hmem hbody).1 fun u hu _ => by rwa [List.mem_singleton.1 hu]
  have hbranches : branches (quoting "{{:}}" ++ ":no") = (quoting "{{:}}", "no") := by
    decide +kernel
  rw [hbranches] at hcut
  exact ⟨t, inner, hmem, hbody, hlevel, hcut⟩

/-- A pair of closing braces in quotes ends a token for the count, and a colon behind it is the cut. -/
theorem not_cutOutside_closing : ∃ t inner body, .token t [inner] ∈ pieces (choosing "\x7d\x7d:") ∧
    t.body = some body ∧ ¬CutOutside (bodyPos t) [inner] body.toList (branches body).1.toList
      (branches body).2.toList := by
  obtain ⟨t, inner, hmem, ht, hinner⟩ :=
    exists_pair_of_view (fun t => (t.body, bodyPos t, t.span)) (by decide +kernel :
      (pieces (choosing "\x7d\x7d:")).map
          (fun piece => piece.tokens.map fun t => (t.body, bodyPos t, t.span)) =
        [[(some (quoting "\x7d\x7d:" ++ ":no"), 9, ⟨0, 32⟩), (some "x", 24, ⟨9, 27⟩)]])
  simp only [Prod.mk.injEq] at ht hinner
  refine ⟨t, inner, _, hmem, ht.1, ?_⟩
  have hbranches : branches (quoting "\x7d\x7d:" ++ ":no") =
      ("\x7b\x7bignore \"\x7d\x7d", "\":x\x7d\x7d:no") := by
    decide +kernel
  rw [hbranches, ht.2.1]
  intro hcut
  cases hcut with
  | colon here _ =>
    refine here.2 inner List.mem_cons_self ?_
    rw [hinner.2.2]
    decide +kernel

end Stencil.Flow
