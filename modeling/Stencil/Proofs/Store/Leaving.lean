import Stencil.Machine
import Stencil.Proofs.Store.Failures

/-!
# Actions That Leave Something Alone

What the parts of an action leave alone, the action leaves alone: for reading and changing the state,
for handing on failures, and for doing something with each item of a list.  The operations of the store
leave what its backend leaves.
-/

namespace Stencil.Store.Leaves

variable {ε ε' α β γ σ : Type} {view : σ → γ}

/-! ## §1 States -/

theorem get : Leaves (ε := ε) view EStateM.get := fun _ => rfl

theorem modify {f : σ → σ} (h : ∀ s, view (f s) = view s) :
    Leaves (ε := ε) view (modify f : Action ε σ Unit) := h

theorem get_bind {f : σ → Action ε σ α} (h : ∀ s, view (stateOf (f s s)) = view s) :
    Leaves view (MonadState.get >>= f) := h

theorem throw_bind (e : ε) (f : α → Action ε σ β) :
    Leaves view ((MonadExcept.throw e : Action ε σ α) >>= f) := fun _ => rfl

theorem mapError {act : Action ε σ α} (h : Leaves view act) (f : ε → ε') :
    Leaves view (act.mapError f) := by
  intro s
  have hact := h s
  unfold Action.mapError
  cases hs : act s <;> simpa [hs, stateOf] using hact

/-! ## §2 Lists -/

theorem mapM {f : α → Action ε σ β} (h : ∀ a, Leaves view (f a)) (as : List α) :
    Leaves view (as.mapM f) := by
  induction as with
  | nil => exact .pure []
  | cons a as ih =>
    rw [List.mapM_cons]
    exact (h a).bind fun b => ih.bind fun bs => .pure (b :: bs)

theorem foldlM {f : β → α → Action ε σ β} (h : ∀ b a, Leaves view (f b a)) (as : List α) (b : β) :
    Leaves view (as.foldlM f b) := by
  induction as generalizing b with
  | nil => exact .pure b
  | cons a as ih => exact (h b a).bind ih

theorem foldrM {f : α → β → Action ε σ β} (h : ∀ a b, Leaves view (f a b)) (as : List α) (b : β) :
    Leaves view (as.foldrM f b) := by
  induction as with
  | nil => exact .pure b
  | cons a as ih =>
    rw [List.foldrM_cons]
    exact ih.bind (h a)

theorem filterM {f : α → Action ε σ Bool} (h : ∀ a, Leaves view (f a)) (as : List α) :
    Leaves view (as.filterM f) := by
  have hgo (kept : List α) : Leaves view (List.filterAuxM f as kept) := by
    induction as generalizing kept with
    | nil => exact .pure kept
    | cons a as ih => exact (h a).bind fun b => ih _
  exact (hgo []).bind fun kept => .pure kept.reverse

theorem filterMapM {f : α → Action ε σ (Option β)} (h : ∀ a, Leaves view (f a)) (as : List α) :
    Leaves view (as.filterMapM f) := by
  induction as with
  | nil => exact .pure []
  | cons a as ih =>
    rw [List.filterMapM_cons]
    refine (h a).bind fun b => ?_
    cases b with
    | none => exact ih
    | some b => exact ih.bind fun bs => .pure (b :: bs)

theorem anyM {f : α → Action ε σ Bool} (h : ∀ a, Leaves view (f a)) (as : List α) :
    Leaves view (as.anyM f) := by
  induction as with
  | nil => exact .pure false
  | cons a as ih =>
    refine (h a).bind fun b => ?_
    cases b with
    | true => exact .pure true
    | false => exact ih

end Stencil.Store.Leaves

namespace Stencil.Store

variable {γ σ τ : Type}

/-! ## §3 The store -/

/-- Whether a backend keeps its items apart from what is seen of the state. -/
structure Backend.Apart (b : Backend σ) (view : σ → γ) : Prop where
  /-- Looking up a key leaves it. -/
  getItem (key : String) : Leaves view (b.getItem key)
  /-- Putting a string under a key leaves it. -/
  setItem (key value : String) : Leaves view (b.setItem key value)
  /-- Dropping a key leaves it. -/
  removeItem (key : String) : Leaves view (b.removeItem key)
  /-- Listing the keys leaves it. -/
  keys : Leaves view b.keys

theorem Backend.apart_on (b : Backend σ) {part : τ → σ} {put : σ → τ → τ} {view : τ → γ}
    (hput : ∀ s t, view (put s t) = view t) : (b.on part put).Apart view := by
  have hlift {α : Type} (act : Action Failure σ α) : Leaves view (Backend.on.lift part put act) := by
    intro t
    unfold Backend.on.lift
    cases act (part t) with
    | ok a s => exact hput s t
    | error e s => exact hput s t
  exact ⟨fun _ => hlift _, fun _ _ => hlift _, fun _ => hlift _, hlift _⟩

namespace Backend.Apart

variable {b : Backend σ} {view : σ → γ} (h : b.Apart view)
include h

theorem careful : b.Careful view :=
  ⟨h.getItem, fun key value => (h.setItem key value).onFailure, fun key => (h.removeItem key).onFailure,
    h.keys⟩

theorem load : Leaves view (Store.load b) := h.careful.load

theorem set (name value : String) : Leaves view (Store.set b name value) :=
  h.load.bind fun _ => h.setItem _ _

theorem get (name : String) : Leaves view (Store.get b name) :=
  h.load.bind fun _ => .pure _

theorem reset (name : String) : Leaves view (Store.reset b name) := by
  refine h.load.bind fun records => ?_
  cases resetIn? records name with
  | none => exact .pure ""
  | some found => exact (h.setItem _ _).bind fun _ => .pure found.1

theorem delete (name : String) : Leaves view (Store.delete b name) := by
  refine h.load.bind fun records => ?_
  dsimp only
  split
  · exact h.setItem _ _
  · exact .pure ()

theorem step (id : String) (delta : Int) : Leaves view (Store.step b id delta) :=
  (h.careful.counter id).bind fun _ => (h.setItem _ _).bind fun _ => .pure _

theorem perform (c : Call) : Leaves view (c.perform b) := by
  cases c with
  | set name value => exact (h.set name value).bind fun _ => .pure _
  | get name => exact (h.get name).bind fun _ => .pure _
  | reset name => exact (h.reset name).bind fun _ => .pure _
  | delete name => exact (h.delete name).bind fun _ => .pure _
  | list => exact h.load.bind fun _ => .pure _
  | increment id => exact (h.step id 1).bind fun _ => .pure _
  | decrement id => exact (h.step id (-1)).bind fun _ => .pure _
  | counter id => exact (h.careful.counter id).bind fun _ => .pure _

end Backend.Apart

end Stencil.Store

namespace Stencil

/-- The backend at a place keeps apart from what neither the items nor the files of a machine change. -/
theorem Place.apart {γ : Type} {view : Machine → γ}
    (hitems : ∀ items m, view { m with items := items } = view m)
    (hfiles : ∀ files m, view { m with files := files } = view m) (place : Place) :
    place.backend.Apart view := by
  cases place with
  | memory => exact Store.Backend.apart_on _ hitems
  | file path => exact Store.Backend.apart_on _ hfiles

end Stencil
