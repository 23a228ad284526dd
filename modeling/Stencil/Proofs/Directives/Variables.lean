import Stencil.Directives.Variables
import Stencil.Proofs.Store.Runs
import Stencil.Proofs.Template.Layout
import Stencil.Proofs.Text.Integer

/-!
# Directives on the Store, Called One After Another

What the directives on variables do with the store is the same on every backend that keeps items, so
it is enough to follow them on items in memory.  As long as the record list can be read and holds no
braces, calls about names and bodies without braces succeed, give texts without braces, and leave
such a record list.

Main statements: `perform_memory` (one call) and `performAll_memory` (several).
-/

namespace Stencil.Directives

open Store Template Text

variable {σ : Type}

/-! ## §1 Calls -/

/-- What an answer of the store is as a text: the names of records stand one after the other. -/
def answerText : Answer → String
  | .done => ""
  | .text s => s
  | .records records => ", ".intercalate (records.map (·.name))
  | .number n => toString n

namespace VariableOperation

/-- The call of the store that an operation is. -/
def call : VariableOperation → String → String → Call
  | set, name, body => .set name body
  | reset, name, _ => .reset name
  | delete, name, _ => .delete name
  | increment, id, _ => .increment id
  | decrement, id, _ => .decrement id
  | get, name, _ => .get name
  | list, _, _ => .list

theorem perform_eq (op : VariableOperation) (b : Backend σ) (name body : String) :
    op.perform b name body = do return answerText (← (op.call name body).perform b) := by
  cases op <;> simp [perform, call, Call.perform, answerText]

/-- What a token is about, or nothing if that is not said or the operation is about all variables. -/
def subject : VariableOperation → Token → String
  | list, _ => ""
  | op, t => (op.target? t).getD ""

/-- Whether a token calls an operation: it has the name, says what it is about unless the operation
is about all variables, and neither that nor the body holds a brace. -/
structure IsCall (op : VariableOperation) (t : Token) : Prop where
  /-- It has the name. -/
  name : t.name = op.name
  /-- It says what it is about. -/
  target : op = .list ∨ (op.target? t).isSome = true
  /-- That holds no brace. -/
  subject : BraceFree (op.subject t).toList
  /-- The body holds no brace. -/
  body : BraceFree t.bodyText.toList

instance (op : VariableOperation) (t : Token) : Decidable (op.IsCall t) :=
  decidable_of_iff (t.name = op.name ∧ (op = .list ∨ (op.target? t).isSome = true) ∧
      BraceFree (op.subject t).toList ∧ BraceFree t.bodyText.toList)
    ⟨fun ⟨h₁, h₂, h₃, h₄⟩ => ⟨h₁, h₂, h₃, h₄⟩, fun ⟨h₁, h₂, h₃, h₄⟩ => ⟨h₁, h₂, h₃, h₄⟩⟩

/-- What the directive of an operation does for a token that calls it. -/
theorem evaluate_eq {op : VariableOperation} {t : Token} (h : op = .list ∨ (op.target? t).isSome = true)
    (host : Host) :
    op.evaluate host t =
      (op.perform host.backend (op.subject t) t.bodyText).mapError .store := by
  rcases h with rfl | h
  · rfl
  · obtain ⟨name, hname⟩ := Option.isSome_iff_exists.1 h
    unfold evaluate VariableOperation.subject
    cases op with
    | list => rfl
    | _ => simp only [hname, Option.getD_some]

theorem perform_simulates {b : Backend σ} {items? : σ → Option Items} (h : b.Keeps items?)
    (op : VariableOperation) (name body : String) :
    Simulates items? (op.perform b name body) (op.perform Backend.memory name body) := by
  rw [perform_eq, perform_eq]
  exact ((op.call name body).perform_simulates h).bind fun _ => .pure items? _

/-! ## §2 One call on items in memory -/

theorem braceFree_toString (n : Int) : BraceFree (toString n).toList := by
  intro c hc
  rcases of_mem_toString hc with rfl | hdigit
  · decide
  · by_contra hbrace
    simp only [isBrace, Bool.not_eq_false, Bool.or_eq_true, beq_iff_eq] at hbrace
    rcases hbrace with rfl | rfl <;> exact absurd hdigit (by decide)

theorem braceFree_intercalate {separator : String} (hsep : BraceFree separator.toList)
    {texts : List String} (h : ∀ s ∈ texts, BraceFree s.toList) :
    BraceFree (separator.intercalate texts).toList := by
  induction texts with
  | nil => exact braceFree_nil
  | cons s texts ih =>
    cases texts with
    | nil =>
      rw [String.intercalate_singleton]
      exact h s List.mem_cons_self
    | cons t texts =>
      rw [String.intercalate_cons_cons, String.toList_append, String.toList_append,
        braceFree_append, braceFree_append]
      exact ⟨⟨h s List.mem_cons_self, hsep⟩, ih fun u hu => h u (List.mem_cons_of_mem _ hu)⟩

/-- What an operation that reads gives, which depends on the record list alone. -/
theorem perform_memory_get {d : Items} {records : List Record} (h : recordsIn d = .ok records)
    (name body : String) :
    get.perform Backend.memory name body d = .ok (valueIn records name) d :=
  get_memory h name

/-- What an operation that reads gives, which depends on the record list alone. -/
theorem perform_memory_list {d : Items} {records : List Record} (h : recordsIn d = .ok records)
    (name body : String) :
    list.perform Backend.memory name body d =
      .ok (", ".intercalate (records.map (·.name))) d := by
  simp only [perform, bind, EStateM.bind, list_memory h]
  rfl

/-- Record lists without braces. -/
abbrev Free (records : List Record) : Prop :=
  ∀ r ∈ records, BraceFree r.name.toList ∧ BraceFree r.value.toList ∧ BraceFree r.initial.toList

theorem Free.valueIn {records : List Record} (h : Free records) (name : String) :
    BraceFree (Store.valueIn records name).toList := by
  unfold Store.valueIn
  cases hfind : records.find? (·.name == name) with
  | none => exact braceFree_nil
  | some r => exact (h r (List.mem_of_find?_eq_some hfind)).2.1

theorem Free.setIn {records : List Record} (h : Free records) {name value : String}
    (hname : BraceFree name.toList) (hvalue : BraceFree value.toList) :
    Free (Store.setIn records name value) := by
  unfold Store.setIn
  intro r hr
  split at hr
  · rename_i old hfind
    obtain ⟨hold, -, hinitial⟩ := h old (List.mem_of_find?_eq_some hfind)
    rcases List.mem_append.1 hr with hr | hr
    · exact h r (List.mem_of_mem_eraseP hr)
    · rw [List.mem_singleton.1 hr]
      exact ⟨hold, hvalue, hinitial⟩
  · rcases List.mem_append.1 hr with hr | hr
    · exact h r hr
    · rw [List.mem_singleton.1 hr]
      exact ⟨hname, hvalue, hvalue⟩

theorem Free.resetIn? {records records' : List Record} {name value : String} (h : Free records)
    (hreset : Store.resetIn? records name = some (value, records')) :
    BraceFree value.toList ∧ Free records' := by
  unfold Store.resetIn? at hreset
  obtain ⟨old, hfind, heq⟩ := Option.map_eq_some_iff.1 hreset
  obtain ⟨rfl, rfl⟩ := Prod.mk.inj heq
  obtain ⟨hold, -, hinitial⟩ := h old (List.mem_of_find?_eq_some hfind)
  refine ⟨hinitial, fun r hr => ?_⟩
  rcases List.mem_append.1 hr with hr | hr
  · exact h r (List.mem_of_mem_eraseP hr)
  · rw [List.mem_singleton.1 hr]
    exact ⟨hold, hinitial, hinitial⟩

/-- A call without braces gives a text without braces and leaves a record list without braces. -/
theorem perform_memory {d : Items} {records : List Record} (h : recordsIn d = .ok records)
    (hfree : Free records) (op : VariableOperation) {name body : String}
    (hname : BraceFree name.toList) (hbody : BraceFree body.toList) :
    ∃ text d' records', op.perform Backend.memory name body d = .ok text d' ∧
      BraceFree text.toList ∧ recordsIn d' = .ok records' ∧ Free records' := by
  have hcount (delta : Int) : ∃ text d' records',
      Store.step Backend.memory name delta d = .ok text d' ∧
        BraceFree text.toList ∧ recordsIn d' = .ok records' ∧ Free records' :=
    ⟨_, _, records, step_memory name delta d, braceFree_toString _, by simp [h], hfree⟩
  cases op with
  | set =>
    refine ⟨"", _, _, ?_, braceFree_nil, recordsIn_withRecords d _, hfree.setIn hname hbody⟩
    simp only [perform, bind, EStateM.bind, set_memory h]
    rfl
  | reset =>
    have hreset := reset_memory h name
    cases hfound : Store.resetIn? records name with
    | none =>
      rw [hfound] at hreset
      exact ⟨"", d, records, hreset, braceFree_nil, h, hfree⟩
    | some found =>
      rw [hfound] at hreset
      obtain ⟨hvalue, hrecords⟩ := hfree.resetIn? hfound
      exact ⟨_, _, _, hreset, hvalue, recordsIn_withRecords d _, hrecords⟩
  | delete =>
    have hdelete : delete.perform Backend.memory name body d = .ok ""
        (if (deleteIn records name).length ≠ records.length then
          withRecords d (deleteIn records name) else d) := by
      simp only [perform, bind, EStateM.bind, delete_memory h]
      rfl
    split at hdelete
    · exact ⟨"", _, _, hdelete, braceFree_nil, recordsIn_withRecords d _,
        fun r hr => hfree r (List.mem_filter.1 hr).1⟩
    · exact ⟨"", d, records, hdelete, braceFree_nil, h, hfree⟩
  | increment => exact hcount 1
  | decrement => exact hcount (-1)
  | get => exact ⟨_, d, records, perform_memory_get h name body, hfree.valueIn name, h, hfree⟩
  | list =>
    refine ⟨_, d, records, perform_memory_list h name body, ?_, h, hfree⟩
    refine braceFree_intercalate (by decide) fun s hs => ?_
    obtain ⟨r, hr, rfl⟩ := List.mem_map.1 hs
    exact (hfree r hr).1

/-! ## §3 Several calls -/

/-- What a call does with a backend. -/
def callOn (b : Backend σ) (c : VariableOperation × Token) : Action Store.Failure σ String :=
  c.1.perform b (c.1.subject c.2) c.2.bodyText

/-- Calls without braces give texts without braces and leave a record list without braces. -/
theorem performAll_memory {calls : List (VariableOperation × Token)}
    (hcalls : ∀ c ∈ calls, c.1.IsCall c.2) {d : Items} {records : List Record}
    (h : recordsIn d = .ok records) (hfree : Free records) :
    ∃ texts d' records', calls.mapM (callOn Backend.memory) d = .ok texts d' ∧
      (∀ text ∈ texts, BraceFree text.toList) ∧ recordsIn d' = .ok records' ∧ Free records' := by
  induction calls generalizing d records with
  | nil => exact ⟨[], d, records, mapM_nil_eq_ok.2 ⟨rfl, rfl⟩, by simp, h, hfree⟩
  | cons c calls ih =>
    have hc := hcalls c List.mem_cons_self
    obtain ⟨text, d₁, records₁, hrun, htext, h₁, hfree₁⟩ :=
      perform_memory h hfree c.1 hc.subject hc.body
    obtain ⟨texts, d', records', hruns, htexts, h', hfree'⟩ :=
      ih (fun c hc => hcalls c (List.mem_cons_of_mem _ hc)) h₁ hfree₁
    refine ⟨text :: texts, d', records', mapM_cons_eq_ok.2 ⟨text, d₁, texts, hrun, hruns, rfl⟩, ?_, h',
      hfree'⟩
    intro s hs
    rcases List.mem_cons.1 hs with rfl | hs
    · exact htext
    · exact htexts s hs

/-- What a call that reads gives, as the record list says. -/
def answerIn (records : List Record) (c : VariableOperation × Token) : String :=
  if c.1 = get then valueIn records (c.1.subject c.2)
  else ", ".intercalate (records.map (·.name))

/-- Calls that read give what the record list says and leave the items as they are. -/
theorem readAll_memory {calls : List (VariableOperation × Token)}
    (hcalls : ∀ c ∈ calls, c.1 = get ∨ c.1 = list) {d : Items} {records : List Record}
    (h : recordsIn d = .ok records) :
    calls.mapM (callOn Backend.memory) d = .ok (calls.map (answerIn records)) d := by
  induction calls with
  | nil => rfl
  | cons c calls ih =>
    refine mapM_cons_eq_ok.2 ⟨_, d, _, ?_, ih fun c hc => hcalls c (List.mem_cons_of_mem _ hc), rfl⟩
    obtain ⟨op, t⟩ := c
    rcases hcalls (op, t) List.mem_cons_self with rfl | rfl
    · exact perform_memory_get h _ _
    · exact perform_memory_list h _ _

/-- Setting and deleting give no text. -/
theorem text_of_perform {op : VariableOperation} (hop : op = set ∨ op = delete) {b : Backend σ}
    {name body text : String} {s s' : σ} (h : op.perform b name body s = .ok text s') : text = "" := by
  rcases hop with rfl | rfl
  · obtain ⟨_, _, -, h⟩ := ok_of_bind h
    exact (EStateM.Result.ok.inj h).1.symm
  · obtain ⟨_, _, -, h⟩ := ok_of_bind h
    exact (EStateM.Result.ok.inj h).1.symm

/-- The texts that several calls give for setting and deleting are empty. -/
theorem text_of_performAll {calls : List (VariableOperation × Token)} (value : Token → String)
    {b : Backend σ} {s s' : σ}
    (h : calls.mapM (callOn b) s = .ok (calls.map fun c => value c.2) s') :
    ∀ c ∈ calls, c.1 = set ∨ c.1 = delete → value c.2 = "" := by
  induction calls generalizing s with
  | nil => simp
  | cons c calls ih =>
    obtain ⟨text, s₁, texts, hc, hcalls, heq⟩ := mapM_cons_eq_ok.1 h
    obtain ⟨rfl, rfl⟩ := List.cons.inj heq
    intro c' hc' hop
    rcases List.mem_cons.1 hc' with rfl | hc'
    · exact text_of_perform hop hc
    · exact ih hcalls c' hc' hop

/-- Calls on a machine succeed as they do on the items of its store. -/
theorem evaluateAll_of_performAll {host : Host} {calls : List (VariableOperation × Token)}
    (hcalls : ∀ c ∈ calls, c.1.IsCall c.2) {m : Machine} {d d' : Items}
    (hitems : host.place.items? m = some d) {texts : List String}
    (h : calls.mapM (callOn Backend.memory) d = .ok texts d') :
    ∃ m', calls.mapM (fun c => c.1.evaluate host c.2) m = .ok texts m' ∧
      host.place.items? m' = some d' := by
  induction calls generalizing m d texts with
  | nil =>
    obtain ⟨rfl, rfl⟩ := mapM_nil_eq_ok.1 h
    exact ⟨m, mapM_nil_eq_ok.2 ⟨rfl, rfl⟩, hitems⟩
  | cons c calls ih =>
    obtain ⟨text, d₁, texts, hc, hrest, rfl⟩ := mapM_cons_eq_ok.1 h
    obtain ⟨m₁, hm₁, hitems₁⟩ := (perform_simulates host.place.backend_keeps c.1
      (c.1.subject c.2) c.2.bodyText).mapError Failure.store m d hitems
    have hmemory : (c.1.perform Backend.memory (c.1.subject c.2) c.2.bodyText).mapError
        Failure.store d = .ok text d₁ := by
      simp only [Action.mapError, show c.1.perform Backend.memory (c.1.subject c.2) c.2.bodyText d =
        .ok text d₁ from hc]
    rw [hmemory] at hm₁ hitems₁
    obtain ⟨m', hm', hitems'⟩ := ih (fun c hc => hcalls c (List.mem_cons_of_mem _ hc)) hitems₁ hrest
    refine ⟨m', mapM_cons_eq_ok.2 ⟨text, m₁, texts, ?_, hm', rfl⟩, hitems'⟩
    rw [evaluate_eq (hcalls c List.mem_cons_self).target]
    exact hm₁

end VariableOperation

end Stencil.Directives
