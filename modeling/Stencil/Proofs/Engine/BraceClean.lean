import Stencil.Engine.Scripted
import Stencil.Proofs.Engine.Attribution

/-!
# Rendering Brace-clean Templates

A template is brace-clean when its braces are those of its tokens.  Rendering such a template
replaces the tokens of known names, outer ones before those in their bodies, and changes nothing
else, as long as no seeded value and no result holds a brace.

Main statement: `render_of_braceClean`.
-/

namespace Stencil.Engine

open Stencil.Text Template

variable {σ : Type}

/-! ## §1 The tokens that are replaced -/

/-- Whether a name is that of a directive. -/
def isKnown (ds : List (Directive σ)) (name : String) : Bool := ds.any (·.name == name)

/-- The token of a piece that stands in no other. -/
def outer? : Piece → Option Token
  | .text _ => none
  | .token outer _ => some outer

/-- The tokens of a text that stand in no other. -/
def outerTokens (source : String) : List Token := (pieces source).filterMap outer?

/-- The tokens of a piece that are replaced, given which names are known: the outer one, or else
those in its body. -/
def replacedIn (known : String → Bool) : Piece → List Token
  | .text _ => []
  | .token outer nested => if known outer.name then [outer] else nested.filter (known ·.name)

/-- The tokens of a template that are replaced. -/
def replacedTokens (known : String → Bool) (template : String) : List Token :=
  (pieces template).flatMap (replacedIn known)

theorem exists_of_isKnown {custom builtin : List (Directive σ)} {name : String}
    (h : isKnown (custom ++ builtin) name = true) :
    ∃ d ∈ evaluationOrder custom builtin, d.name = name := by
  obtain ⟨d, hd, hname⟩ := List.any_eq_true.1 h
  have hname : d.name = name := by simpa using hname
  by_cases hcustom : ∃ c ∈ custom, c.name = name
  · obtain ⟨c, hc, hcname⟩ := hcustom
    exact ⟨c, List.mem_append_left _ hc, hcname⟩
  · rcases List.mem_append.1 hd with hd | hd
    · exact absurd ⟨d, hd, hname⟩ hcustom
    · refine ⟨d, List.mem_append_right _ (List.mem_filter.2 ⟨hd, ?_⟩), hname⟩
      simp only [Bool.not_eq_true', List.any_eq_false, beq_iff_eq]
      exact fun c hc heq => hcustom ⟨c, hc, heq.trans hname⟩

theorem isKnown_of_mem {custom builtin : List (Directive σ)} {d : Directive σ}
    (h : d ∈ evaluationOrder custom builtin) : isKnown (custom ++ builtin) d.name = true := by
  refine List.any_eq_true.2 ⟨d, ?_, by simp⟩
  rcases List.mem_append.1 h with h | h
  · exact List.mem_append_left _ h
  · exact List.mem_append_right _ (List.mem_filter.1 h).1

theorem text?_of_seedText? {order : List (Directive σ)} {seed : Context} {name s : String}
    (h : seedText? order seed name = some s) : ∃ key, seed.text? key = some s := by
  obtain ⟨d, -, h⟩ := Option.bind_eq_some_iff.1 h
  obtain ⟨key, -, h⟩ := Option.bind_eq_some_iff.1 h
  split at h
  · exact ⟨key, h⟩
  · exact absurd h (by simp)

/-- A seeded value holds no braces if no value of the seed does. -/
theorem braceFree_of_seedText? {order : List (Directive σ)} {seed : Context} {name s : String}
    (hseed : ∀ key s, Context.text? seed key = some s → BraceFree s.toList)
    (h : seedText? order seed name = some s) : BraceFree s.toList := by
  obtain ⟨key, hkey⟩ := text?_of_seedText? h
  exact hseed key s hkey

/-! ## §2 Layouts tagged by where their tokens stand -/

theorem outerTokens_of_layout {α : Type} {source : String} {l : Layout α}
    (h : source.toList = l.write) :
    outerTokens source = (place Node.write 0 l).map fun (n, p) => n.head.token p := by
  have hfilter (ps : List Piece) : (ps.filter Piece.isToken).filterMap outer? =
      ps.filterMap outer? := by
    rw [List.filterMap_filter]
    refine List.filterMap_congr fun piece _ => ?_
    cases piece <;> rfl
  rw [outerTokens, pieces, h, ← hfilter, filter_scanPieces_write, List.filterMap_map,
    ← List.filterMap_eq_map]
  rfl

theorem map_outerTokens {α : Type} {source : String} {l : Layout α}
    (h : source.toList = l.write) :
    (outerTokens source).map (fun t => (t.name, t.args)) =
      l.nodes.map fun n => (n.opening.name, n.opening.args) := by
  rw [outerTokens_of_layout h, List.map_map, Layout.nodes, ← map_fst_place Node.write 0,
    List.map_map]
  rfl

/-- The head of a token that is not filled is left, but for its body. -/
theorem mem_heads_fill_of_none {l : Layout Span} {u : Filling Span} {n : Node Span}
    (hn : n ∈ l.nodes) (hu : u n.tag = none) : ∀ h ∈ (n.fill u).heads, h ∈ (l.fill u).heads := by
  intro h hh
  rw [Layout.heads, nodes_fill]
  refine List.mem_flatMap.2 ⟨n.fill u, List.mem_map_of_mem (List.mem_filter.2 ⟨hn, ?_⟩), hh⟩
  simp [hu]

/-- A filling that fills just the known tokens makes the edits that replace them. -/
theorem edits_eq_replaced {known : String → Bool} {template : String} {l : Layout Span}
    (hl : template.toList = l.write) (htags : ∀ m ∈ l.marks 0, m.1.tag = (m.1.token m.2).span)
    {u : Filling Span} (hfilled : ∀ h ∈ l.heads, u h.tag ≠ none → known h.opening.name = true)
    (hgone : ∀ h ∈ (l.fill u).heads, known h.opening.name = false) :
    l.edits u 0 = (replacedTokens known template).map fun t => ⟨t.span, u.textAt t.span⟩ := by
  rw [replacedTokens, pieces, hl, ← flatMap_filter_isToken fun _ => rfl, filter_scanPieces_write,
    List.flatMap_map, List.map_flatMap, Layout.edits]
  refine List.flatMap_congr ?_
  rintro ⟨n, p⟩ hmem
  have hn : n ∈ l.nodes := by
    rw [Layout.nodes, ← map_fst_place Node.write 0]
    exact List.mem_map_of_mem (f := Prod.fst) hmem
  have hmarks : ∀ m ∈ (n.head, p) :: n.nested p, m ∈ l.marks 0 :=
    fun m hm => List.mem_flatMap.2 ⟨(n, p), hmem, hm⟩
  dsimp only
  rw [Node.piece, replacedIn, Head.token_name, Node.edits]
  cases hu : u n.tag with
  | some text =>
    have hknown : known n.head.opening.name = true :=
      hfilled n.head (mem_heads_of_mem_marks (hmarks _ List.mem_cons_self)) (by simp [hu])
    have htag : n.tag = (n.head.token p).span := htags (n.head, p) (hmarks _ List.mem_cons_self)
    rw [if_pos hknown, List.map_singleton, ← htag, Filling.textAt_of_some hu, htag]
    rfl
  | none =>
    have hleft := mem_heads_fill_of_none hn hu
    have hunknown : known n.head.opening.name = false := by
      rw [← Bool.not_eq_true]
      exact fun hknown => absurd (hgone (n.fill u).head (hleft _ List.mem_cons_self))
        (by simpa [Node.fill] using hknown)
    simp only [hunknown, Bool.false_eq_true, ↓reduceIte]
    rw [List.filter_map, List.map_map, ← List.filterMap_eq_map', List.filterMap_filter, editsAt]
    refine List.filterMap_congr fun m hm => ?_
    have hm' := hmarks m (List.mem_cons_of_mem _ hm)
    cases hum : u m.1.tag with
    | some text =>
      have hknown : known m.1.opening.name = true :=
        hfilled m.1 (mem_heads_of_mem_marks hm') (by simp [hum])
      simp [hum, hknown, ← htags m hm', Filling.textAt_of_some hum, Head.edit]
    | none =>
      -- The token in the body is left, so its name is not known.
      have hleaf : m.1 ∈ n.leaves.map Leaf.head := by
        rw [← map_fst_nested n p]
        exact List.mem_map_of_mem hm
      obtain ⟨t, ht, hhead⟩ := List.mem_map.1 hleaf
      have hkept : t ∈ (n.fill u).leaves := by
        rw [leaves_fill]
        refine List.mem_filter.2 ⟨ht, ?_⟩
        have htag : t.tag = m.1.tag := congrArg Head.tag hhead
        simp [htag, hum]
      have hunknown' := hgone m.1 (hleft _ (List.mem_cons_of_mem _
        (hhead ▸ List.mem_map_of_mem hkept)))
      simp [hum, hunknown']

theorem mem_tokens_of_mem_replaced {known : String → Bool} {template : String} {t : Token}
    (ht : t ∈ replacedTokens known template) : t ∈ tokens template := by
  obtain ⟨piece, hpiece, ht⟩ := List.mem_flatMap.1 ht
  refine List.mem_flatMap.2 ⟨piece, hpiece, ?_⟩
  cases piece with
  | text span => exact absurd ht (by simp [replacedIn])
  | token outer nested =>
    rw [replacedIn] at ht
    split at ht
    · rw [List.mem_singleton.1 ht]
      exact List.mem_cons_self
    · exact List.mem_cons_of_mem _ (List.mem_filter.1 ht).1

/-- An edit that fills a layout puts the text of a tag in the place of its token. -/
theorem exists_of_mem_edits {α : Type} {l : Layout α} {u : Filling α} {pos : Nat} {e : Edit}
    (he : e ∈ l.edits u pos) :
    ∃ m ∈ l.marks pos, ∃ text, u m.1.tag = some text ∧ e = m.1.edit m.2 text := by
  obtain ⟨⟨n, p⟩, hmem, he⟩ := List.mem_flatMap.1 he
  dsimp only at he
  rw [Node.edits] at he
  split at he
  · rename_i text hu
    exact ⟨(n.head, p), List.mem_flatMap.2 ⟨(n, p), hmem, List.mem_cons_self⟩, text, hu,
      List.mem_singleton.1 he⟩
  · obtain ⟨m, hm, hsome⟩ := List.mem_filterMap.1 he
    obtain ⟨text, hu, rfl⟩ := Option.map_eq_some_iff.1 hsome
    exact ⟨m, List.mem_flatMap.2 ⟨(n, p), hmem, List.mem_cons_of_mem _ hm⟩, text, hu, rfl⟩

/-- A token that a filling replaces is one at a mark of its layout, with the text that takes its place. -/
theorem exists_mark_of_mem_replaced {known : String → Bool} {template : String} {l : Layout Span}
    (hl : template.toList = l.write) (htags : ∀ m ∈ l.marks 0, m.1.tag = (m.1.token m.2).span)
    {u : Filling Span}
    (hedits : l.edits u 0 = (replacedTokens known template).map fun t => ⟨t.span, u.textAt t.span⟩)
    {t : Token} (ht : t ∈ replacedTokens known template) :
    ∃ m ∈ l.marks 0, t = m.1.token m.2 ∧
      ∃ text, u m.1.tag = some text ∧ u.textAt t.span = .ofList text.1 := by
  have hmem : (⟨t.span, u.textAt t.span⟩ : Edit) ∈ l.edits u 0 := by
    rw [hedits]
    exact List.mem_map_of_mem (f := fun t => (⟨t.span, u.textAt t.span⟩ : Edit)) ht
  obtain ⟨m, hm, text, hu, hedit⟩ := exists_of_mem_edits hmem
  have htoken := mem_tokens_of_mem_replaced ht
  rw [tokens_of_layout hl] at htoken
  obtain ⟨m', hm', rfl⟩ := List.mem_map.1 htoken
  rw [Head.edit, Edit.mk.injEq] at hedit
  -- Where they stand, the token and the edit have the same tag.
  have htag : m'.1.tag = m.1.tag := by rw [htags m' hm', htags m hm, ← hedit.1]
  exact ⟨m', hm', rfl, text, htag ▸ hu, hedit.2⟩

/-! ## §3 The rendering -/

section Rendering

variable {custom builtin : List (Directive σ)} {limit : Nat} {template : String} {seed : Context}
  {state : σ} (hclean : BraceClean template)
  (hseed : ∀ key s, Context.text? seed key = some s → BraceFree s.toList)
  (hlimit : (tokens template).length ≤ limit)
  (hearly : NoEarlyFields (evaluationOrder custom builtin) limit
    (startIn (evaluationOrder custom builtin) template seed state))
  (hfree : ∀ e ∈ (render custom builtin limit template seed state).evaluations,
    BraceFree e.outcome.text.toList)
include hclean hseed hlimit hearly hfree

/-- A rendering fills a layout of the template at the tokens of known names, with texts that can be
attributed. -/
theorem exists_filled : ∃ (l : Layout Span) (u : Filling Span) (origin : Span → Option Origin),
    template.toList = l.write ∧ (∀ m ∈ l.marks 0, m.1.tag = (m.1.token m.2).span) ∧
      (render custom builtin limit template seed state).text.toList = (l.fill u).write ∧
      Attributed (evaluationOrder custom builtin) seed
        (render custom builtin limit template seed state).evaluations l u origin ∧
      (∀ h ∈ l.heads, u h.tag ≠ none → isKnown (custom ++ builtin) h.opening.name = true) ∧
      ∀ h ∈ (l.fill u).heads, isKnown (custom ++ builtin) h.opening.name = false := by
  obtain ⟨l, hl, hnd, hlength, htags⟩ := exists_spanned_layout hclean
  have hheads : l.heads.length ≤ limit := hlength ▸ hlimit
  have hseeds : ∀ h ∈ l.heads, ∀ s,
      seedText? (evaluationOrder custom builtin) seed h.opening.name = some s → BraceFree s.toList :=
    fun _ _ _ => braceFree_of_seedText? hseed
  obtain ⟨u, origin, htracks, hattributed⟩ := exists_attributed hnd hl hseeds hfree
  obtain ⟨v, hworked, hgone⟩ := exists_tracks_renderIn hnd hl hheads hseeds hearly hfree
  refine ⟨l, u, origin, hl, htags, htracks.text, hattributed, fun h hh hu => ?_, fun h hh => ?_⟩
  · obtain ⟨d, hd, hname⟩ := htracks.known h hh hu
    rw [← hname]
    exact isKnown_of_mem hd
  · -- What is left is seen in the text, where no known name is left.
    rw [← Bool.not_eq_true]
    intro hknown
    obtain ⟨d, hd, hname⟩ := exists_of_isKnown hknown
    exact htracks.gone_iff.2 (hworked.gone_iff.1 (hgone d hd)) h hh hname.symm

/-- It patches the template at these tokens, with texts that are accounted for. -/
theorem exists_account : ∃ account : Account (evaluationOrder custom builtin) seed template
      (render custom builtin limit template seed state).evaluations,
    (∀ t ∈ replacedTokens (isKnown (custom ++ builtin)) template,
      (account.origin t).isSome = true ∧ BraceFree (account.value t).toList) ∧
    Patched 0 template.toList
      ((replacedTokens (isKnown (custom ++ builtin)) template).map fun t =>
        ⟨t.span, account.value t⟩)
      (render custom builtin limit template seed state).text.toList := by
  obtain ⟨l, u, origin, hl, htags, htext, hattributed, hfilled, hleft⟩ :=
    exists_filled hclean hseed hlimit hearly hfree
  have hedits := edits_eq_replaced hl htags hfilled hleft
  refine ⟨hattributed.account hl (f := id) htags Function.injective_id, fun t ht => ?_, ?_⟩
  · obtain ⟨m, hm, rfl, text, hu, hvalue⟩ := exists_mark_of_mem_replaced hl htags hedits ht
    have hsome := hattributed.filled m.1 (mem_heads_of_mem_marks hm)
    rw [hu, htags m hm] at hsome
    refine ⟨hsome, ?_⟩
    change BraceFree (u.textAt (m.1.token m.2).span).toList
    rw [hvalue, String.toList_ofList]
    exact text.2
  · have hpatched := patched_fill u l 0
    rwa [hedits, ← hl, ← htext] at hpatched

end Rendering

/-- A brace-clean template is rendered by replacing the tokens of known names, the outer ones with all
that stands in them, by texts without braces.  Each of these texts is that of the seed or the result of
the token's own evaluation, which is empty if that failed.  Everything else is as it was; so the outer
tokens that are left are those of unknown names, with their arguments, and no token of a known name is
left. -/
theorem render_of_braceClean (custom builtin : List (Directive σ)) (limit : Nat) (template : String)
    (seed : Context) (state : σ) (hclean : BraceClean template)
    (hseed : ∀ key s, Context.text? seed key = some s → BraceFree s.toList)
    (hlimit : (tokens template).length ≤ limit)
    (hearly : NoEarlyFields (evaluationOrder custom builtin) limit
      (startIn (evaluationOrder custom builtin) template seed state))
    (hfree : ∀ e ∈ (render custom builtin limit template seed state).evaluations,
      BraceFree e.outcome.text.toList) :
    let known := isKnown (custom ++ builtin)
    let r := render custom builtin limit template seed state
    ∃ account : Account (evaluationOrder custom builtin) seed template r.evaluations,
      (∀ t ∈ replacedTokens known template,
        (account.origin t).isSome = true ∧ BraceFree (account.value t).toList) ∧
      Patched 0 template.toList
        ((replacedTokens known template).map fun t => ⟨t.span, account.value t⟩) r.text.toList ∧
      (outerTokens r.text).map (fun t => (t.name, t.args)) =
        ((outerTokens template).filter fun t => !known t.name).map (fun t => (t.name, t.args)) ∧
      ∀ t ∈ tokens r.text, known t.name = false := by
  intro known r
  obtain ⟨account, hreplaced, hpatched⟩ := exists_account hclean hseed hlimit hearly hfree
  obtain ⟨l, u, origin, hl, htags, htext, -, hfilled, hleft⟩ :=
    exists_filled hclean hseed hlimit hearly hfree
  refine ⟨account, hreplaced, hpatched, ?_, fun t ht => ?_⟩
  · -- An outer token is left exactly if its name is not known.
    have hnodes : ∀ n ∈ l.nodes, (u n.tag).isNone = !known n.opening.name := by
      intro n hn
      cases hu : u n.tag with
      | some text =>
        have hknown := hfilled n.head (head_mem_heads hn) (by simp [hu])
        simpa using hknown
      | none =>
        have hunknown := hleft _ (mem_heads_fill_of_none hn hu _ List.mem_cons_self)
        simpa [Node.fill] using hunknown
    have hfilter := List.filter_map (f := fun t : Token => (t.name, t.args))
      (p := fun p => !known p.1) (l := outerTokens template)
    rw [map_outerTokens htext, nodes_fill, List.filter_congr hnodes, List.map_map]
    rw [map_outerTokens hl, List.filter_map] at hfilter
    exact hfilter
  · rw [tokens_of_layout htext] at ht
    obtain ⟨m, hm, rfl⟩ := List.mem_map.1 ht
    exact hleft m.1 (mem_heads_of_mem_marks hm)

/-- Tokens of a directive that answers, of one that fails, of one that is seeded, and of none. -/
theorem render_greetings :
    let scripted : List Scripted :=
      [⟨"greet", false, [], [], ["Hello"], none, false, Dict.empty, false⟩,
        ⟨"miss", false, ["missed"], [], [], none, true, Dict.empty, true⟩,
        ⟨"name", false, ["name"], [], ["Bob"], none, true, Dict.empty, false⟩]
    let ds := scripted.zipIdx.map fun (s, i) => s.directive (σ := Unit) i
    let template := "{{greet}} {{name:{{greet}}}}{{miss}}, {{unknown a:{{greet}}}} : {{greet}}"
    let seed : Context := Dict.empty.insert "name" (.text "Ann")
    let r := render (ds.take 1) (ds.drop 1) 7 template seed ((), [0, 0, 0])
    BraceClean template ∧ r.text = "Hello Ann, {{unknown a:Hello}} : Hello" ∧
      ∃ account : Account (evaluationOrder (ds.take 1) (ds.drop 1)) seed template r.evaluations,
        Patched 0 template.toList
          ((replacedTokens (isKnown ds) template).map fun t => ⟨t.span, account.value t⟩)
          r.text.toList := by
  intro scripted ds template seed r
  have hclean : BraceClean template := by decide +kernel
  have hseed : ∀ key s, Context.text? seed key = some s → BraceFree s.toList := by
    intro key s hs
    rw [Context.text?, Dict.get?_insert] at hs
    split at hs
    · obtain rfl : "Ann" = s := by simpa [Context.valueText] using hs
      decide
    · exact absurd hs (by simp [Dict.get?, Dict.empty])
  obtain ⟨account, -, hpatched, -, -⟩ := render_of_braceClean (ds.take 1) (ds.drop 1) 7 template seed
    ((), [0, 0, 0]) hclean hseed (by decide +kernel) (by decide +kernel) (by decide +kernel)
  rw [List.take_append_drop] at hpatched
  -- Without its value, the result is not run again when the parts are put together.
  have hr : r = render (ds.take 1) (ds.drop 1) 7 template seed ((), [0, 0, 0]) := rfl
  clear_value r
  subst hr
  exact ⟨hclean, by decide +kernel, account, hpatched⟩

end Stencil.Engine
