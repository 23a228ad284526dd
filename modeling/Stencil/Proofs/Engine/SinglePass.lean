import Stencil.Proofs.Catalog
import Stencil.Proofs.Engine.Journal

/-!
# One Ordered Pass

The evaluations of a rendering come in the order of the directives, whatever their results put into
the text.  So what a template changes in the store is seen by everything in it that reads the store,
wherever that stands, and a directive whose turn is over is evaluated again only as a dependency.

Main statement: `evaluations_in_one_pass`.
-/

namespace Stencil.Engine

open Template Directives Catalog

variable {σ τ : Type}

/-! ## §1 The order of evaluation -/

theorem names_map_onFirst (ds : List (Directive σ)) :
    (ds.map (Directive.onFirst (τ := τ))).map (·.name) = ds.map (·.name) :=
  List.map_map

theorem nodup_evaluationOrder {custom builtin : List (Directive σ)}
    (hcustom : (custom.map (·.name)).Nodup) (hbuiltin : (builtin.map (·.name)).Nodup) :
    ((evaluationOrder custom builtin).map (·.name)).Nodup := by
  rw [evaluationOrder, List.map_append, List.nodup_append]
  refine ⟨hcustom, (List.filter_sublist.map _).nodup hbuiltin, ?_⟩
  rintro name hname name' hname' rfl
  obtain ⟨d, hd, rfl⟩ := List.mem_map.1 hname
  obtain ⟨d', hd', hsame⟩ := List.mem_map.1 hname'
  have hnone := (List.mem_filter.1 hd').2
  simp only [Bool.not_eq_true', List.any_eq_false, beq_iff_eq] at hnone
  exact hnone d hd hsame.symm

theorem mem_evaluationOrder {custom builtin : List (Directive σ)} {d : Directive σ}
    (h : d ∈ evaluationOrder custom builtin) : d ∈ custom ∨ d ∈ builtin := by
  rcases List.mem_append.1 h with h | h
  · exact Or.inl h
  · exact Or.inr (List.mem_filter.1 h).1

/-- The built-in directives that read variables come after those that change them. -/
theorem reading_after_changing {reader changer : VariableOperation} (hreader : reader ∈ reading)
    (hchanger : changer ∈ changing) :
    Catalog.builtinNames.Pairwise fun a b => ¬(a = reader.name ∧ b = changer.name) := by
  have hall : ∀ reader ∈ reading, ∀ changer ∈ changing,
      Catalog.builtinNames.Pairwise fun a b => ¬(a = reader.name ∧ b = changer.name) := by
    decide +kernel
  exact hall reader hreader changer hchanger

/-- So they do among directives of which the host has none of these names. -/
theorem evaluationOrder_pairwise {custom : List (Directive (Machine × τ))} {host : Host}
    {reader changer : VariableOperation} (hreader : reader ∈ reading) (hchanger : changer ∈ changing)
    (hcustom : ∀ d ∈ custom, d.name ≠ reader.name ∧ d.name ≠ changer.name) :
    (evaluationOrder custom ((Catalog.builtin host).map Directive.onFirst)).Pairwise
      fun d d' => ¬(d.name = reader.name ∧ d'.name = changer.name) := by
  rw [evaluationOrder, List.pairwise_append]
  refine ⟨?_, ?_, ?_⟩
  · refine List.pairwise_of_forall_mem_list fun d hd d' _ => ?_
    exact fun h => (hcustom d hd).1 h.1
  · have hnames := reading_after_changing hreader hchanger
    rw [← Catalog.names_builtin host, ← names_map_onFirst (τ := τ), List.pairwise_map] at hnames
    exact hnames.sublist List.filter_sublist
  · exact fun d hd d' _ h => (hcustom d hd).1 h.1

/-! ## §2 Blocks -/

/-- Where no directive depends on a name, an evaluation of a directive of that name belongs to a
block of such a directive. -/
theorem name_of_isBlock {order : List (Directive σ)} {d : Directive σ} {es : List (Evaluation σ)}
    (h : IsBlock order d es) {name : String} (hname : name ∉ d.dependencies) :
    ∀ e ∈ es, e.directive.name = name → d.name = name := by
  intro e he heq
  obtain ⟨-, hd | ⟨hdep, -⟩⟩ := directive_of_isBlock h e he
  · rw [← hd, heq]
  · exact absurd (heq ▸ hdep) hname

/-- A relation between directives that holds along the order holds between the evaluations of their
blocks. -/
theorem pairwise_flatten_of_blocks {order ds : List (Directive σ)}
    {blocks : List (List (Evaluation σ))} (hblocks : List.Forall₂ (IsBlock order) ds blocks)
    {a b : String} (hab : a ≠ b) (hfree : ∀ d ∈ ds, a ∉ d.dependencies ∧ b ∉ d.dependencies)
    (hds : ds.Pairwise fun d d' => ¬(d.name = a ∧ d'.name = b)) :
    blocks.flatten.Pairwise fun e e' => ¬(e.directive.name = a ∧ e'.directive.name = b) := by
  induction hblocks with
  | nil => simp
  | @cons d es ds blocks hd hrest ih =>
    obtain ⟨hfirst, hlater⟩ := List.pairwise_cons.1 hds
    obtain ⟨hda, hdb⟩ := hfree d List.mem_cons_self
    have hrest' := ih (fun d' hd' => hfree d' (List.mem_cons_of_mem _ hd')) hlater
    rw [List.flatten_cons, List.pairwise_append]
    refine ⟨?_, hrest', ?_⟩
    · -- Both in the block of `d`: it would have both names.
      refine List.pairwise_of_forall_mem_list fun e he e' he' hboth => ?_
      exact hab ((name_of_isBlock hd hda e he hboth.1).symm.trans
        (name_of_isBlock hd hdb e' he' hboth.2))
    · -- The second in a later block: that is of a directive that comes later.
      intro e he e' he' hboth
      obtain ⟨block, hblock, he'⟩ := List.mem_flatten.1 he'
      obtain ⟨i, hi, rfl⟩ := List.mem_iff_getElem.1 hblock
      have hlength := hrest.length_eq
      have hd' := hrest.get (by omega) hi
      have hmem : ds[i] ∈ ds := List.getElem_mem _
      have hname := name_of_isBlock hd' (hfree _ (List.mem_cons_of_mem _ hmem)).2 e' he' hboth.2
      exact hfirst _ hmem ⟨name_of_isBlock hd hda e he hboth.1, hname⟩

/-- With distinct names, a token of an earlier directive is evaluated in a later block only if the
directive of that block depends on the earlier one. -/
theorem pairwise_zip_of_blocks {order ds : List (Directive σ)}
    {blocks : List (List (Evaluation σ))} (hblocks : List.Forall₂ (IsBlock order) ds blocks)
    (hnd : (ds.map (·.name)).Nodup) :
    (ds.zip blocks).Pairwise fun p q =>
      ∀ e ∈ q.2, e.token.name = p.1.name → p.1.name ∈ q.1.dependencies := by
  induction hblocks with
  | nil => simp
  | @cons d es ds blocks hd hrest ih =>
    rw [List.map_cons, List.nodup_cons] at hnd
    rw [List.zip_cons_cons, List.pairwise_cons]
    refine ⟨?_, ih hnd.2⟩
    rintro ⟨d', es'⟩ hq e he hname
    have hd' : IsBlock order d' es' := List.forall₂_iff_zip.1 hrest |>.2 hq
    obtain ⟨htoken, heq | ⟨hdep, -⟩⟩ := directive_of_isBlock hd' e he
    · rw [heq, hname] at htoken
      exact absurd (htoken ▸ List.mem_map_of_mem (List.of_mem_zip hq).1) hnd.1
    · rwa [← htoken, hname] at hdep

/-! ## §3 The pass -/

/-- The evaluations of a rendering are blocks of the directives in the order of evaluation: each
block holds evaluations of the declared dependencies, in declared order, and then of the directive
itself.  So, unless one of the host's directives depends on a directive on variables, the built-in
directives that change variables are all evaluated before those that read them; and, if the names of
the host's directives are distinct, a token of a directive whose block is over is not evaluated in
the block of another, unless that depends on it. -/
theorem evaluations_in_one_pass (host : Host) (custom : List (Directive (Machine × τ)))
    (limit : Nat) (template : String) (seed : Context) (state : Machine × τ) :
    let builtin := (Catalog.builtin host).map Directive.onFirst
    let order := evaluationOrder custom builtin
    let es := (render custom builtin limit template seed state).evaluations
    ∃ blocks, es = blocks.flatten ∧ List.Forall₂ (IsBlock order) order blocks ∧
      ((∀ d ∈ custom, ∀ op : VariableOperation, op.name ∉ d.dependencies) →
        ∀ reader ∈ reading, ∀ changer ∈ changing,
          (∀ d ∈ custom, d.name ≠ reader.name ∧ d.name ≠ changer.name) →
          es.Pairwise fun e e' =>
            ¬(e.directive.name = reader.name ∧ e'.directive.name = changer.name)) ∧
      ((custom.map (·.name)).Nodup → (order.zip blocks).Pairwise fun earlier later =>
        ∀ e ∈ later.2, e.token.name = earlier.1.name →
          earlier.1.name ∈ later.1.dependencies) := by
  intro builtin order es
  obtain ⟨blocks, hes, hblocks⟩ := evaluations_renderIn order limit template seed state
  refine ⟨blocks, hes, hblocks, ?_, ?_⟩
  · intro hdeps reader hreader changer hchanger hcustom
    have hne : reader.name ≠ changer.name := by
      have hall : ∀ reader ∈ reading, ∀ changer ∈ changing, reader.name ≠ changer.name := by decide
      exact hall reader hreader changer hchanger
    -- The built-in directives depend on no directive on variables either.
    have hfree : ∀ d ∈ order, ∀ op : VariableOperation, op.name ∉ d.dependencies := by
      intro d hd op hop
      rcases mem_evaluationOrder hd with hd | hd
      · exact hdeps d hd op hop
      · obtain ⟨b, hb, rfl⟩ := List.mem_map.1 hd
        have hname := Catalog.dependencies_builtin host b hb op.name hop
        cases op <;> exact absurd hname (by decide)
    have hpairwise := pairwise_flatten_of_blocks hblocks hne
      (fun d hd => ⟨hfree d hd reader, hfree d hd changer⟩)
      (evaluationOrder_pairwise hreader hchanger hcustom)
    rw [← hes] at hpairwise
    exact hpairwise
  · intro hnd
    refine pairwise_zip_of_blocks hblocks (nodup_evaluationOrder hnd ?_)
    rw [names_map_onFirst]
    exact Catalog.nodup_builtin host

end Stencil.Engine
