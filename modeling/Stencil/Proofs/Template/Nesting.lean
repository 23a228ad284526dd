import Stencil.Template.Splice
import Stencil.Proofs.Template.RawText
import Stencil.Proofs.Template.Splicing

/-!
# Results in Bodies

When a token in the body of another is replaced by a text, the outer token is read again, with that text
in its body.  Whether it comes out as it was depends on the text: a pair of closing braces ends the body
early, a pair of opening ones may break it off, and a token that was broken before may become whole and
take the outer token in.

Main statements: `reportsWith_iff` and `not_reportsWith_clipboard`.
-/

namespace Stencil.Template

open Stencil.Text

/-! ## §1 Texts in front of a body -/

/-- Texts without pairs, with a text without braces between them, have no pair where they meet, unless
that text is empty and there are closing braces on both sides. -/
theorem noPair_glue {text result rest : List Char} (htext : NoPair (text ++ ['{']))
    (hrest : NoPair rest) (hfree : BraceFree result)
    (hlone : result = [] → text.getLast? ≠ some '}') : NoPair (text ++ (result ++ rest)) := by
  have hresult : NoPair (result ++ rest) := by
    clear hlone
    induction result with
    | nil => exact hrest
    | cons c result ih =>
      obtain ⟨hopen, hclose⟩ := ne_of_isBrace hfree.head
      refine noPair_cons_iff.2 ⟨?_, ?_, ih hfree.tail⟩
      · rintro ⟨tail, htail⟩
        exact hopen (List.cons.inj htail).1
      · rintro ⟨tail, htail⟩
        exact hclose (List.cons.inj htail).1
  induction text with
  | nil => exact hresult
  | cons c text ih =>
    rw [List.cons_append, noPair_cons_iff] at htext
    obtain ⟨hopen, hclose, htext⟩ := htext
    cases text with
    | cons d text =>
      -- Whether a pair starts here is seen in the text itself.
      have hstarts (b : Char) : StartsPair b (c :: (d :: text ++ (result ++ rest))) ↔
          StartsPair b (c :: (d :: text ++ ['{'])) := by
        simp [StartsPair]
      refine noPair_cons_iff.2 ⟨?_, ?_, ih htext fun hnil => by simpa using hlone hnil⟩
      · exact fun hpair => hopen ((hstarts '{').1 hpair)
      · exact fun hpair => hclose ((hstarts '}').1 hpair)
    | nil =>
      refine noPair_cons_iff.2 ⟨?_, ?_, hresult⟩
      · rintro ⟨tail, htail⟩
        exact hopen ⟨[], by rw [(List.cons.inj htail).1]; rfl⟩
      · rintro ⟨tail, htail⟩
        obtain ⟨rfl, hnext⟩ := List.cons.inj htail
        cases result with
        | nil => exact hlone rfl rfl
        | cons d result =>
          obtain ⟨rfl, -⟩ := List.cons.inj hnext
          exact (ne_of_isBrace hfree.head).2 rfl

/-- A text without braces may stand between a text and the rest of a body. -/
theorem WrittenBody.glue {pos : Nat} {text result rest : List Char} {nested : List Token}
    (h : WrittenBody pos rest nested) (htext : NoPair (text ++ ['{'])) (hfree : BraceFree result)
    (hlone : result = [] → text.getLast? ≠ some '}') (pos' : Nat) :
    ∃ nested', WrittenBody pos' (text ++ (result ++ rest)) nested' := by
  cases h with
  | last hpair =>
    refine ⟨[], .last ?_⟩
    rw [List.append_assoc, List.append_assoc]
    exact noPair_glue htext hpair hfree hlone
  | @token _ before w after t nested hpair first others =>
    have hfirst := WrittenInner.move (k := 0) first (pos' + byteLength (text ++ (result ++ before)))
    have hothers := WrittenBody.move (k := 0) others
      (pos' + byteLength (text ++ (result ++ before)) + byteLength w)
    have hglue : NoPair (text ++ (result ++ before) ++ ['{']) := by
      rw [List.append_assoc, List.append_assoc]
      exact noPair_glue htext hpair hfree hlone
    exact ⟨_, by simpa using WrittenBody.token hglue hfirst hothers⟩

/-! ## §2 A text in the place of a token -/

/-- Whether a lone closing brace stands before a position: one that ends none of some tokens. -/
def LoneClose (before : List Char) (nested : List Token) (p : Nat) : Prop :=
  before.getLast? = some '}' ∧ ∀ u ∈ nested, u.span.stop ≠ p

/-- A token in a body stands between two parts of it, and a text without braces may take its place; if
that is empty, no lone closing brace may stand before it. -/
theorem WrittenBody.exists_replace {pos : Nat} {text : List Char} {nested : List Token}
    (h : WrittenBody pos text nested) {inner : Token} (hinner : inner ∈ nested) :
    ∃ before w after, text = before ++ (w ++ after) ∧ WrittenInner (pos + byteLength before) w inner ∧
      ∀ result, BraceFree result →
        (result = [] → ¬LoneClose before nested inner.span.start) →
          ∀ pos', ∃ nested', WrittenBody pos' (before ++ (result ++ after)) nested' := by
  induction h with
  | last _ => exact absurd hinner List.not_mem_nil
  | @token pos text w rest t nested hpair first others ih =>
    have hpos := first.byteLength_pos
    rcases List.mem_cons.1 hinner with rfl | hinner
    · -- It is the first token: the text before it and the rest of the body meet.
      refine ⟨text, w, rest, rfl, first, fun result hfree hlone pos' => ?_⟩
      refine others.glue hpair hfree (fun hnil hlast => hlone hnil ⟨hlast, fun u hu => ?_⟩) pos'
      rw [first.span_eq]
      rcases List.mem_cons.1 hu with rfl | hu
      · rw [first.span_eq]
        dsimp only
        omega
      · have := (others.flat u hu).bounds
        dsimp only
        omega
    · -- It comes later, so the first token and the text before it are as they were.
      obtain ⟨before, v, after, rfl, hv, hreplace⟩ := ih hinner
      have hlength : pos + byteLength (text ++ (w ++ before)) =
          pos + byteLength text + byteLength w + byteLength before := by
        simp [Nat.add_assoc]
      refine ⟨text ++ (w ++ before), v, after, by simp, hlength ▸ hv,
        fun result hfree hlone pos' => ?_⟩
      have hlone' : result = [] → ¬LoneClose before nested inner.span.start := by
        rintro hnil ⟨hlast, hends⟩
        refine hlone hnil ⟨?_, fun u hu => ?_⟩
        · rw [← List.append_assoc, List.getLast?_append, hlast, Option.some_or]
        · rcases List.mem_cons.1 hu with rfl | hu
          · -- The first token ends before the text in front of the inner one does.
            have hne : before ≠ [] := by
              rintro rfl
              exact absurd hlast (by simp)
            have := byteLength_pos hne
            rw [first.span_eq, hv.span_eq]
            dsimp only
            omega
          · exact hends u hu
      have hfirst := WrittenInner.move (k := 0) first (pos' + byteLength text)
      obtain ⟨nested', hothers⟩ :=
        hreplace result hfree hlone' (pos' + byteLength text + byteLength w)
      exact ⟨_, by simpa using WrittenBody.token hpair hfirst hothers⟩

/-! ## §3 Tokens before it -/

/-- Whether every pair of opening braces that starts before a position starts in a token. -/
def NoLooseOpen (source : String) (p : Nat) : Prop :=
  ∀ before after, source.toList = before ++ '{' :: '{' :: after → byteLength before < p →
    ∃ t nested, .token t nested ∈ pieces source ∧ t.span.start ≤ byteLength before ∧
      byteLength before < t.span.stop

/-- What starts a text is what starts another that goes on in the same way. -/
theorem TokenAt.of_append {p : Nat} {a cs : List Char} {t : Token} {nested : List Token}
    (h : TokenAt 0 (a ++ cs) p t nested) (hstop : t.span.stop ≤ byteLength a) :
    TokenAt 0 a p t nested := by
  obtain ⟨before, w, after, hcs, hp, hw⟩ := h
  rw [hw.span_eq] at hstop
  dsimp only at hstop
  rw [← List.append_assoc] at hcs
  obtain ⟨c, rfl, -⟩ := exists_append_of_byteLength_le hcs.symm (by rw [byteLength_append]; omega)
  exact ⟨before, w, c, by simp, hp, hw⟩

/-- Two texts that are the same up to a position, where a token starts in the one, and opening braces
stand in the other, report the same tokens before it, if there is no loose pair. -/
theorem token_mem_of_append {source source' : String} {a cs cs' : List Char} {outer : Token}
    {nested : List Token} (hsource : source.toList = a ++ '{' :: cs)
    (hsource' : source'.toList = a ++ '{' :: cs') (houter : .token outer nested ∈ pieces source)
    (hstart : outer.span.start = byteLength a) (hloose : NoLooseOpen source (byteLength a)) :
    ∀ q u us, u.span.start = q → q < byteLength a → .token u us ∈ pieces source' →
      .token u us ∈ pieces source := by
  have hcut := cut_pieces source
  have hcut' := cut_pieces source'
  intro q
  induction q using Nat.strong_induction_on with
  | _ q ih =>
    intro u us hu hbefore hmem
    obtain ⟨hat, houtside⟩ := hcut'.token_mem_iff.1 hmem
    -- The opening braces of the token stand in the first text as well, so they stand in a token of it.
    obtain ⟨t, ts, ht, hle, hlt⟩ : ∃ t ts, .token t ts ∈ pieces source ∧ t.span.start ≤ q ∧
        q < t.span.stop := by
      obtain ⟨before, w, after, hcs, hp, hw⟩ := hat
      obtain ⟨tail, rfl⟩ := hw.exists_cons
      rw [hsource'] at hcs
      obtain ⟨c, rfl, hc⟩ := exists_append_of_byteLength_le hcs.symm (by omega)
      obtain ⟨rest, hrest⟩ : ∃ rest, c ++ '{' :: cs = '{' :: '{' :: rest := by
        rcases c with _ | ⟨d, _ | ⟨e, c⟩⟩
        · rw [List.append_nil] at hbefore
          omega
        · simp only [List.cons_append, List.nil_append, List.cons.injEq] at hc
          exact ⟨cs, by rw [← hc.1]; rfl⟩
        · simp only [List.cons_append, List.cons.injEq] at hc
          exact ⟨c ++ '{' :: cs, by rw [← hc.1, ← hc.2.1]; rfl⟩
      have hfound := hloose before rest (by rw [hsource, List.append_assoc, hrest]) (by omega)
      rwa [show byteLength before = q by omega] at hfound
    -- That token ends before the outer one, so it is a token of the other text.
    have hstop : t.span.stop ≤ byteLength a := by
      have := (hcut.token_mem_iff.1 houter).2 t ts ht
      omega
    have hat' : TokenAt 0 source'.toList t.span.start t ts := by
      have := (hcut.token_mem_iff.1 ht).1
      rw [hsource] at this
      rw [hsource']
      exact (this.of_append hstop).append_right _
    rcases Nat.lt_or_ge t.span.start q with hinside | hge
    · -- Nothing reported before it reaches over its start, so it is reported, and nothing starts in it.
      have hreported : .token t ts ∈ pieces source' := by
        refine hcut'.token_mem_iff.2 ⟨hat', fun v vs hv hreach => ?_⟩
        have hv' := ih v.span.start (by omega) v vs rfl (by omega) hv
        exact (hcut.token_mem_iff.1 ht).2 v vs hv' hreach
      exact absurd ⟨by omega, by omega⟩ (houtside t ts hreported)
    · obtain rfl : t.span.start = q := by omega
      rw [hu] at hat
      obtain ⟨rfl, rfl⟩ := hat.unique hat'
      exact ht

/-! ## §4 The token around it -/

/-- Whether a text reports a token that says what another says, from the same place, but with a body. -/
def ReportsWith (source : String) (outer : Token) (body : String) : Prop :=
  ∃ t nested, .token t nested ∈ pieces source ∧ t.span.start = outer.span.start ∧
    t.name = outer.name ∧ t.args = outer.args ∧ t.body = some body

/-- What stands in a token before its body ends where the colon does. -/
theorem front_eq {front front' rest rest' : List Char} {name : String} {args : Arguments}
    (h : WrittenHeader front name args) (h' : WrittenHeader front' name args)
    (heq : front ++ ':' :: rest = front' ++ ':' :: rest') : front = front' ∧ rest = rest' := by
  have hscan := h.scan .colon rest
  have hscan' := h'.scan .colon rest'
  rw [HeaderEnd.chars, List.append_assoc, List.singleton_append] at hscan hscan'
  rw [heq, hscan', Option.some.injEq, Prod.mk.injEq] at hscan
  obtain rfl := hscan.2
  exact ⟨List.append_cancel_right heq, rfl⟩

theorem TokenAt.exists_body {cs : List Char} {p : Nat} {t inner : Token} {nested : List Token}
    (h : TokenAt 0 cs p t nested) (hinner : inner ∈ nested) : ∃ before front body after,
      cs = before ++ (braced front (some body) ++ after) ∧ byteLength before = p ∧
      WrittenHeader front t.name t.args ∧ t.raw.toList = braced front (some body) ∧
      t.body = some (.ofList body) ∧ WrittenBody (bodyStart p front) body nested := by
  obtain ⟨before, w, after, rfl, rfl, hw⟩ := h
  cases hw with
  | closed _ => exact absurd hinner List.not_mem_nil
  | body hheader hbody =>
    exact ⟨before, _, _, after, rfl, (Nat.zero_add _).symm, hheader, by simp [tokenAt], rfl, hbody⟩

/-- A token is read with a body exactly if that is one. -/
theorem tokenAt_braced_iff {front : List Char} {name : String} {args : Arguments}
    (hheader : WrittenHeader front name args) (before body after : List Char) :
    (∃ t nested, TokenAt 0 (before ++ (braced front (some body) ++ after)) (byteLength before) t nested ∧
        t.name = name ∧ t.args = args ∧ t.body = some (.ofList body)) ↔
      ∃ nested, WrittenBody (bodyStart (byteLength before) front) body nested := by
  constructor
  · rintro ⟨t, nested, ⟨before', w, after', hcs, hp, hw⟩, rfl, rfl, hbody⟩
    obtain ⟨c, rfl, hc⟩ := exists_append_of_byteLength_le hcs.symm (by omega)
    have hnil : byteLength c = 0 := by
      rw [byteLength_append] at hp
      omega
    obtain rfl := byteLength_eq_zero_iff.1 hnil
    cases hw with
    | closed _ => exact absurd hbody (by simp [tokenAt])
    | @body front' body' _ _ _ hheader' hinner =>
      obtain rfl : body' = body := by simpa [tokenAt, String.ofList_inj] using hbody
      -- Both headers are read from the same text, so they are the same.
      have htext : front' ++ ':' :: (body' ++ '}' :: '}' :: after') =
          front ++ ':' :: (body' ++ '}' :: '}' :: after) := by
        simpa [braced] using hc
      obtain ⟨rfl, -⟩ := front_eq hheader' hheader htext
      exact ⟨nested, hinner⟩
  · rintro ⟨nested, hbody⟩
    exact ⟨tokenAt (byteLength before) front name args (some body), nested,
      ⟨before, _, after, rfl, Nat.zero_add _, .body hheader hbody⟩, rfl, rfl, rfl⟩

theorem toList_splice_one {source : String} {before w after : List Char}
    (h : source.toList = before ++ (w ++ after)) (hne : w ≠ []) {s : Span}
    (hs : s = ⟨byteLength before, byteLength before + byteLength w⟩) (result : String) :
    (splice source [⟨s, result⟩]).toList = before ++ (result.toList ++ after) := by
  have hwhole := (Patched.whole (0 + byteLength before) result hne).append_keep after
  have hpatched := hwhole.keep_append before
  rw [Nat.zero_add, ← hs, ← h] at hpatched
  rw [splice_eq_of_patched hpatched, String.toList_ofList]

/-- **What a result does in a body.**  A token that stands in the body of a reported one is replaced by a
text.  The outer token is then reported with that text in its body, its name and arguments unchanged,
exactly if what has become of the body is one, and no reported token starts before it and reaches over
its start.  This is so in particular when the text holds no braces, unless it is empty and stands behind
a lone closing brace, or a pair of opening braces stands loose before the outer token. -/
theorem reportsWith_iff {source : String} {outer inner : Token} {nested : List Token}
    (houter : .token outer nested ∈ pieces source) (hinner : inner ∈ nested) :
    ∃ front before after, WrittenHeader front outer.name outer.args ∧
      outer.raw.toList = braced front (some (before ++ (inner.raw.toList ++ after))) ∧
      outer.body = some (.ofList (before ++ (inner.raw.toList ++ after))) ∧
      inner.span.start = bodyStart outer.span.start front + byteLength before ∧
      ∀ result : String,
        let source' := splice source [⟨inner.span, result⟩]
        let body := before ++ (result.toList ++ after)
        (ReportsWith source' outer (.ofList body) ↔
          (∃ nested', WrittenBody (bodyStart outer.span.start front) body nested') ∧
            ∀ u us, .token u us ∈ pieces source' →
              ¬(u.span.start < outer.span.start ∧ outer.span.start < u.span.stop)) ∧
        (BraceFree result.toList → (result = "" → ¬LoneClose before nested inner.span.start) →
          NoLooseOpen source outer.span.start → ReportsWith source' outer (.ofList body)) := by
  have hcut := cut_pieces source
  obtain ⟨ahead, front, text, behind, hcs, hahead, hheader, hwritten, htext, hbody⟩ :=
    (hcut.tokenAt houter).exists_body hinner
  rw [← hahead] at hbody
  obtain ⟨before, w, after, rfl, hw, hreplace⟩ := hbody.exists_replace hinner
  obtain rfl := hw.raw_eq
  rw [← hahead]
  refine ⟨front, before, after, hheader, hwritten, htext, by rw [hw.span_eq], fun result => ?_⟩
  intro source' body
  -- The text that comes out: the same but for the body.
  have hcs' : source'.toList = ahead ++ (braced front (some body) ++ behind) := by
    have hspan : inner.span = ⟨byteLength (ahead ++ ('{' :: '{' :: (front ++ [':']) ++ before)),
        byteLength (ahead ++ ('{' :: '{' :: (front ++ [':']) ++ before)) +
          byteLength inner.raw.toList⟩ := by
      rw [hw.span_eq, byteLength_append, byteLength_append, bodyStart, Nat.add_assoc]
    have hsplit : source.toList = ahead ++ ('{' :: '{' :: (front ++ [':']) ++ before) ++
        (inner.raw.toList ++ (after ++ '}' :: '}' :: behind)) := by
      rw [hcs]
      simp [braced]
    have hne : inner.raw.toList ≠ [] := by
      obtain ⟨tail, htail⟩ := hw.exists_cons
      rw [htail]
      exact List.cons_ne_nil _ _
    rw [toList_splice_one hsplit hne hspan result]
    simp [braced, body]
  have hiff : ReportsWith source' outer (.ofList body) ↔
      (∃ nested', WrittenBody (bodyStart (byteLength ahead) front) body nested') ∧
        ∀ u us, .token u us ∈ pieces source' →
          ¬(u.span.start < byteLength ahead ∧ byteLength ahead < u.span.stop) := by
    have hcut' := cut_pieces source'
    constructor
    · rintro ⟨t, ts, ht, hstart, hname, hargs, htext'⟩
      obtain ⟨hat, houtside⟩ := hcut'.token_mem_iff.1 ht
      rw [hstart, ← hahead] at hat houtside
      rw [hcs'] at hat
      exact ⟨(tokenAt_braced_iff hheader ahead body behind).1 ⟨t, ts, hat, hname, hargs, htext'⟩, houtside⟩
    · rintro ⟨hbody', houtside⟩
      obtain ⟨t, ts, hat, hname, hargs, htext'⟩ :=
        (tokenAt_braced_iff hheader ahead body behind).2 hbody'
      have hstart := hat.bounds.2.1
      rw [← hcs', ← hstart] at hat
      rw [← hstart] at houtside
      exact ⟨t, ts, hcut'.token_mem_iff.2 ⟨hat, houtside⟩, hstart.trans hahead, hname, hargs, htext'⟩
  refine ⟨hiff, fun hfree hlone hloose => hiff.2 ⟨?_, fun u us hu hreach => ?_⟩⟩
  · exact hreplace result.toList hfree (fun hnil => hlone (String.toList_eq_nil_iff.1 hnil)) _
  · -- What is reported before it was reported before, and then it does not reach over its start.
    have hsame := token_mem_of_append hcs hcs' houter hahead.symm hloose _ u us rfl hreach.1 hu
    rw [hahead] at hreach
    exact (hcut.token_mem_iff.1 houter).2 u us hsame hreach

/-- A template that is one token with one in its body, by where they stand. -/
theorem exists_pair (source : String) (s s' : Span)
    (h : (pieces source).map (fun piece => piece.tokens.map Token.span) = [[s, s']]) :
    ∃ outer inner, .token outer [inner] ∈ pieces source ∧ outer.span = s ∧ inner.span = s' :=
  exists_pair_of_view Token.span h

/-- A word in the place of a token. -/
theorem reportsWith_word :
    ∃ outer inner, .token outer [inner] ∈ pieces "{{ignore:a {{clipboardText}} b}}" ∧
      ∃ before after, outer.body = some (.ofList (before ++ (inner.raw.toList ++ after))) ∧
        ReportsWith (splice "{{ignore:a {{clipboardText}} b}}" [⟨inner.span, "word"⟩]) outer
          (.ofList (before ++ ("word".toList ++ after))) := by
  obtain ⟨outer, inner, hmem, hspan, -⟩ :=
    exists_pair "{{ignore:a {{clipboardText}} b}}" ⟨0, 32⟩ ⟨11, 28⟩ (by decide +kernel)
  obtain ⟨front, before, after, -, -, hbody, -, hresult⟩ := reportsWith_iff hmem List.mem_cons_self
  refine ⟨outer, inner, hmem, before, after, hbody, (hresult "word").2 (by decide) ?_ ?_⟩
  · exact fun hnil => absurd hnil (by decide)
  · intro ahead rest _ hlt
    rw [hspan] at hlt
    exact absurd hlt (Nat.not_lt_zero _)

/-- A pair of closing braces in the place of a token ends the body, and what is behind it leaks out. -/
theorem not_reportsWith_clipboard :
    ∃ outer inner, .token outer [inner] ∈ pieces "{{ignore:{{clipboardText}}}}" ∧
      ∀ before after, ¬ReportsWith
        (splice "{{ignore:{{clipboardText}}}}" [⟨inner.span, "a\x7d\x7db"⟩]) outer
          (.ofList (before ++ ("a\x7d\x7db".toList ++ after))) := by
  obtain ⟨outer, inner, hmem, -, hspan⟩ :=
    exists_pair "{{ignore:{{clipboardText}}}}" ⟨0, 28⟩ ⟨9, 26⟩ (by decide +kernel)
  refine ⟨outer, inner, hmem, fun before after => ?_⟩
  rintro ⟨t, nested, ht, -, -, -, hbody⟩
  rw [hspan] at ht
  have hbodies : (tokens (splice "{{ignore:{{clipboardText}}}}" [⟨⟨9, 26⟩, "a\x7d\x7db"⟩])).map
      Token.body = [some "a"] := by decide +kernel
  have hmem' : t.body ∈ [some "a"] := by
    rw [← hbodies]
    exact List.mem_map_of_mem (List.mem_flatMap.2 ⟨_, ht, List.mem_cons_self⟩)
  rw [hbody, List.mem_singleton, Option.some.injEq, ← String.toList_inj, String.toList_ofList] at hmem'
  have hlength := congrArg List.length hmem'
  simp at hlength
  omega

end Stencil.Template
