import DenoisePlanner.Pipeline.Draft

namespace DenoisePlanner

theorem Span.slice_appended (a b : Array α) :
    (⟨a.size, a.size + b.size⟩ : Span).slice (a ++ b) = b.toList := by
  simp [slice, Array.extract_append]

-- Tables only grow at their end, here by entries with the property `P`.
def Grows (P : α → Prop) (old new : Array α) : Prop :=
  ∃ added, new = old ++ added ∧ ∀ a ∈ added, P a

namespace Grows

variable {P Q : α → Prop} {a b c : Array α}

theorem refl (a : Array α) : Grows P a a := ⟨#[], by simp, by simp⟩

theorem trans (hab : Grows P a b) (hbc : Grows P b c) : Grows P a c := by
  obtain ⟨x, rfl, hx⟩ := hab
  obtain ⟨y, rfl, hy⟩ := hbc
  refine ⟨x ++ y, Array.append_assoc .., fun v hv => ?_⟩
  rcases Array.mem_append.mp hv with h | h
  · exact hx v h
  · exact hy v h

theorem mono (h : Grows P a b) (hPQ : ∀ x, P x → Q x) : Grows Q a b := by
  obtain ⟨added, rfl, hadded⟩ := h
  exact ⟨added, rfl, fun x hx => hPQ x (hadded x hx)⟩

theorem push {x : α} (hx : P x) : Grows P a (a.push x) :=
  ⟨#[x], by simp, by simpa using hx⟩

theorem size_le (h : Grows P a b) : a.size ≤ b.size := by
  obtain ⟨added, rfl, -⟩ := h
  simp

theorem getElem? (h : Grows P a b) {i : Nat} {x : α} (hi : a[i]? = some x) : b[i]? = some x := by
  obtain ⟨added, rfl, -⟩ := h
  obtain ⟨hlt, rfl⟩ := Array.getElem?_eq_some_iff.mp hi
  simp [Array.getElem?_append, hlt]

-- What is read from the grown table was there, or has the property.
theorem of_getElem? (h : Grows P a b) {i : Nat} {x : α} (hi : b[i]? = some x) :
    a[i]? = some x ∨ a.size ≤ i ∧ P x := by
  obtain ⟨added, rfl, hadded⟩ := h
  by_cases hlt : i < a.size
  · left
    simpa [Array.getElem?_append, hlt] using hi
  · right
    rw [Array.getElem?_append_right (by omega)] at hi
    exact ⟨by omega, hadded x (Array.mem_of_getElem? hi)⟩

theorem forall_mem (h : Grows P a b) (ha : ∀ x ∈ a, P x) : ∀ x ∈ b, P x := by
  obtain ⟨added, rfl, hadded⟩ := h
  intro x hx
  rcases Array.mem_append.mp hx with hx | hx
  · exact ha x hx
  · exact hadded x hx

theorem findIdx? (h : Grows P a b) {p : α → Bool} {i : Nat} (hi : a.findIdx? p = some i) :
    b.findIdx? p = some i := by
  obtain ⟨added, rfl, -⟩ := h
  simp [Array.findIdx?_append, hi]

theorem slice (h : Grows P a b) {s : Span} (hs : s.stop ≤ a.size) : s.slice b = s.slice a := by
  obtain ⟨added, rfl, -⟩ := h
  simp [Span.slice, Array.extract_append, show s.stop - a.size = 0 by omega]

end Grows

-- Steps of a declaration, opened into their effects.
namespace Declaring

variable {ε σ α β : Type} {s s' : σ}

theorem bind_eq_ok_iff {x : EStateM ε σ α} {f : α → EStateM ε σ β} {b : β} :
    (x >>= f) s = .ok b s' ↔ ∃ a s₁, x s = .ok a s₁ ∧ f a s₁ = .ok b s' := by
  change EStateM.bind x f s = _ ↔ _
  unfold EStateM.bind
  cases x s <;> simp [and_assoc]

theorem bind_eq_error_iff {x : EStateM ε σ α} {f : α → EStateM ε σ β} {e : ε} :
    (x >>= f) s = .error e s' ↔
      x s = .error e s' ∨ ∃ a s₁, x s = .ok a s₁ ∧ f a s₁ = .error e s' := by
  change EStateM.bind x f s = _ ↔ _
  unfold EStateM.bind
  cases x s <;> simp [and_assoc]

theorem bind_of_ok {x : EStateM ε σ α} {f : α → EStateM ε σ β} {a : α} (h : x s = .ok a s') :
    (x >>= f) s = f a s' := by
  change EStateM.bind x f s = _
  rw [EStateM.bind, h]

theorem bind_of_error {x : EStateM ε σ α} {f : α → EStateM ε σ β} {e : ε}
    (h : x s = .error e s') : (x >>= f) s = .error e s' := by
  change EStateM.bind x f s = _
  rw [EStateM.bind, h]

theorem pure_eq_ok_iff {a b : α} :
    (pure a : EStateM ε σ α) s = .ok b s' ↔ a = b ∧ s = s' := by
  change EStateM.Result.ok a s = _ ↔ _
  simp

theorem get_eq_ok_iff {t : σ} : (get : EStateM ε σ σ) s = .ok t s' ↔ s = t ∧ s = s' := by
  change EStateM.Result.ok s s = _ ↔ _
  simp

theorem modifyGet_eq_ok_iff {f : σ → α × σ} {a : α} :
    (modifyGet f : EStateM ε σ α) s = .ok a s' ↔ f s = (a, s') := by
  change EStateM.Result.ok (f s).1 (f s).2 = _ ↔ _
  simp [Prod.ext_iff]

theorem modify_eq_ok_iff {f : σ → σ} {u : PUnit} :
    (modify f : EStateM ε σ PUnit) s = .ok u s' ↔ f s = s' := by
  change (modifyGet fun s => (PUnit.unit, f s) : EStateM ε σ PUnit) s = _ ↔ _
  simp [modifyGet_eq_ok_iff]

theorem throw_eq_ok_iff {e : ε} {a : α} :
    (throw e : EStateM ε σ α) s = .ok a s' ↔ False := by
  change EStateM.Result.error e s = _ ↔ _
  simp

theorem guard_eq_ok_iff {c : Prop} [Decidable c] {e : ε} {f : α → EStateM ε σ β}
    {k : EStateM ε σ β} {b : β} :
    (if c then throw e >>= f else k) s = .ok b s' ↔ ¬c ∧ k s = .ok b s' := by
  split <;> simp_all [bind_eq_ok_iff, throw_eq_ok_iff]

theorem discard_eq_ok_iff {x : EStateM ε σ α} {u : PUnit} :
    (discard x) s = .ok u s' ↔ ∃ a, x s = .ok a s' := by
  change EStateM.map _ x s = _ ↔ _
  unfold EStateM.map
  cases x s <;> simp

theorem discard_eq_error_iff {x : EStateM ε σ α} {e : ε} :
    (discard x) s = .error e s' ↔ x s = .error e s' := by
  change EStateM.map _ x s = _ ↔ _
  unfold EStateM.map
  cases x s <;> simp

theorem get_eq_error_iff {e : ε} : (get : EStateM ε σ σ) s = .error e s' ↔ False := by
  change EStateM.Result.ok s s = _ ↔ _
  simp

theorem modifyGet_eq_error_iff {f : σ → α × σ} {e : ε} :
    (modifyGet f : EStateM ε σ α) s = .error e s' ↔ False := by
  change EStateM.Result.ok (f s).1 (f s).2 = _ ↔ _
  simp

theorem modify_eq_error_iff {f : σ → σ} {e : ε} :
    (modify f : EStateM ε σ PUnit) s = .error e s' ↔ False :=
  modifyGet_eq_error_iff

theorem throw_eq_error_iff {e e' : ε} :
    (throw e : EStateM ε σ α) s = .error e' s' ↔ e = e' ∧ s = s' := by
  change EStateM.Result.error e s = _ ↔ _
  simp

theorem guard_eq_error_iff {c : Prop} [Decidable c] {e e' : ε} {f : α → EStateM ε σ β}
    {k : EStateM ε σ β} :
    (if c then throw e >>= f else k) s = .error e' s' ↔
      c ∧ e = e' ∧ s = s' ∨ ¬c ∧ k s = .error e' s' := by
  split <;> simp_all [bind_eq_error_iff, throw_eq_error_iff, throw_eq_ok_iff]

def succeeds (x : EStateM ε σ α) (s : σ) : Bool :=
  match x s with
  | .ok .. => true
  | .error .. => false

theorem exists_of_succeeds {x : EStateM ε σ α} (h : succeeds x s = true) :
    ∃ a s', x s = .ok a s' := by
  unfold succeeds at h
  split at h
  · exact ⟨_, _, ‹_›⟩
  · cases h

-- What one step of a loop preserves, the loop preserves. `P` tells of the elements done.
theorem forM_ok {f : α → EStateM ε σ PUnit} {P : List α → σ → Prop}
    (step : ∀ {done x s s'}, P done s → f x s = .ok ⟨⟩ s' → P (done ++ [x]) s')
    {l : List α} (hs : P [] s) (h : l.forM f s = .ok ⟨⟩ s') : P l s' := by
  suffices ∀ (l done : List α) (s : σ), P done s → l.forM f s = .ok ⟨⟩ s' → P (done ++ l) s' by
    simpa using this l [] s hs h
  intro l
  induction l with
  | nil =>
    intro done s hP h
    cases h
    simpa using hP
  | cons x xs ih =>
    intro done s hP h
    obtain ⟨⟨⟩, s₁, hx, hxs⟩ := bind_eq_ok_iff.mp h
    simpa using ih (done ++ [x]) s₁ (step hP hx) hxs

end Declaring

end DenoisePlanner
