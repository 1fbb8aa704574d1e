import Mathlib.Data.List.Forall2

namespace DenoisePlanner

-- The steps of a list that hand a signal on, what each step reads and writes, the places where
-- the signal may be on its way, and the place where it has to arrive.
structure Route (α τ : Type) where
  main : α → Prop
  reads : α → List τ
  writes : α → List τ
  carriers : List τ
  output : τ

namespace Route

variable {α β τ : Type} {ρ : Route α τ} {σ : Route β τ} {held inputs : List τ} {xs pre post : List α}

-- The signal is in `held`. The next step of the route takes it from there, unless others have
-- overwritten it by then, and leaves it in a carrier, or in the output if it is the last.
inductive Carries (ρ : Route α τ) : List τ → List α → Prop where
  | skip {held : List τ} {x : α} {xs : List α} : ¬ρ.main x → (∀ t ∈ held, t ∉ ρ.writes x) →
    Carries ρ held xs → Carries ρ held (x :: xs)
  | step {held : List τ} {x : α} {t : τ} {xs : List α} : ρ.main x → held ⊆ ρ.reads x →
    t ∈ ρ.carriers → t ∈ ρ.writes x → Carries ρ [t] xs → Carries ρ held (x :: xs)
  | last {held : List τ} {x : α} {xs : List α} : ρ.main x → held ⊆ ρ.reads x →
    ρ.output ∈ ρ.writes x → (∀ y ∈ xs, ¬ρ.main y) → Carries ρ held (x :: xs)

-- The signal goes from the inputs to the output, step by step.
structure Leads (ρ : Route α τ) (inputs : List τ) (xs : List α) : Prop where
  first : ∃ pre x post, xs = pre ++ x :: post ∧ ρ.main x ∧ (∀ y ∈ pre, ¬ρ.main y) ∧
    inputs ⊆ ρ.reads x
  next : ∀ pre x mid y post, xs = pre ++ x :: (mid ++ y :: post) → ρ.main x → ρ.main y →
    (∀ z ∈ mid, ¬ρ.main z) →
      ∃ t ∈ ρ.carriers, t ∈ ρ.writes x ∧ t ∈ ρ.reads y ∧ ∀ z ∈ mid, t ∉ ρ.writes z
  last : ∀ pre x post, xs = pre ++ x :: post → ρ.main x → (∀ y ∈ post, ¬ρ.main y) →
    ρ.output ∈ ρ.writes x

theorem Carries.exists_first (h : ρ.Carries held xs) :
    ∃ pre x post, xs = pre ++ x :: post ∧ ρ.main x ∧ (∀ y ∈ pre, ¬ρ.main y) ∧
      held ⊆ ρ.reads x := by
  induction h with
  | @skip held x xs hx _ _ ih =>
    obtain ⟨pre, y, post, rfl, hy, hpre, hreads⟩ := ih
    exact ⟨x :: pre, y, post, rfl, hy, by simpa [hx] using hpre, hreads⟩
  | @step held x t xs hx hreads _ _ _ _ => exact ⟨[], x, xs, rfl, hx, by simp, hreads⟩
  | @last held x xs hx hreads _ _ => exact ⟨[], x, xs, rfl, hx, by simp, hreads⟩

-- What is held stays as it is until the next step of the route reads it.
theorem Carries.reach {mid : List α} {y : α} (h : ρ.Carries held (mid ++ y :: post))
    (hy : ρ.main y) (hmid : ∀ z ∈ mid, ¬ρ.main z) :
    held ⊆ ρ.reads y ∧ ∀ z ∈ mid, ∀ t ∈ held, t ∉ ρ.writes z := by
  induction mid with
  | nil =>
    cases h with
    | skip hskip => exact absurd hy hskip
    | step _ hreads => exact ⟨hreads, by simp⟩
    | last _ hreads => exact ⟨hreads, by simp⟩
  | cons z mid ih =>
    have hz := hmid z List.mem_cons_self
    cases h with
    | skip _ hkeeps hrest =>
      obtain ⟨hreads, hothers⟩ := ih hrest fun w hw => hmid w (List.mem_cons_of_mem _ hw)
      exact ⟨hreads, by simpa using ⟨hkeeps, hothers⟩⟩
    | step hmain => exact absurd hmain hz
    | last hmain => exact absurd hmain hz

theorem Carries.next {x y : α} {mid : List α} (h : ρ.Carries held xs)
    (hsplit : xs = pre ++ x :: (mid ++ y :: post)) (hx : ρ.main x) (hy : ρ.main y)
    (hmid : ∀ z ∈ mid, ¬ρ.main z) :
    ∃ t ∈ ρ.carriers, t ∈ ρ.writes x ∧ t ∈ ρ.reads y ∧ ∀ z ∈ mid, t ∉ ρ.writes z := by
  induction h generalizing pre with
  | skip hskip _ _ ih =>
    cases pre with
    | nil =>
      obtain ⟨rfl, -⟩ := List.cons.inj hsplit
      exact absurd hx hskip
    | cons _ pre => exact ih (List.cons.inj hsplit).2
  | @step _ _ t _ _ _ hcarrier hwrites hrest ih =>
    cases pre with
    | nil =>
      obtain ⟨rfl, rfl⟩ := List.cons.inj hsplit
      obtain ⟨hreads, hkeeps⟩ := hrest.reach hy hmid
      exact ⟨t, hcarrier, hwrites, by simpa using hreads, by simpa using hkeeps⟩
    | cons _ pre => exact ih (List.cons.inj hsplit).2
  | last _ _ _ hnone =>
    cases pre with
    | nil =>
      obtain ⟨-, rfl⟩ := List.cons.inj hsplit
      exact absurd hy (hnone y (by simp))
    | cons _ pre =>
      obtain ⟨-, rfl⟩ := List.cons.inj hsplit
      exact absurd hx (hnone x (by simp))

theorem Carries.output_mem {x : α} (h : ρ.Carries held xs) (hsplit : xs = pre ++ x :: post)
    (hx : ρ.main x) (hpost : ∀ y ∈ post, ¬ρ.main y) : ρ.output ∈ ρ.writes x := by
  induction h generalizing pre with
  | skip hskip _ _ ih =>
    cases pre with
    | nil =>
      obtain ⟨rfl, -⟩ := List.cons.inj hsplit
      exact absurd hx hskip
    | cons _ pre => exact ih (List.cons.inj hsplit).2
  | step _ _ _ _ hrest ih =>
    cases pre with
    | nil =>
      obtain ⟨rfl, rfl⟩ := List.cons.inj hsplit
      obtain ⟨pre', y, post', rfl, hy, -⟩ := hrest.exists_first
      exact absurd hy (hpost y (by simp))
    | cons _ pre => exact ih (List.cons.inj hsplit).2
  | last _ _ houtput hnone =>
    cases pre with
    | nil =>
      obtain ⟨rfl, -⟩ := List.cons.inj hsplit
      exact houtput
    | cons _ pre =>
      obtain ⟨-, rfl⟩ := List.cons.inj hsplit
      exact absurd hx (hnone x (by simp))

theorem Carries.append (h : ρ.Carries held xs) (hpost : ∀ y ∈ post, ¬ρ.main y) :
    ρ.Carries held (xs ++ post) := by
  induction h with
  | skip hskip hkeeps _ ih => exact .skip hskip hkeeps ih
  | step hx hreads hcarrier hwrites _ ih => exact .step hx hreads hcarrier hwrites ih
  | last hx hreads houtput hnone =>
    refine .last hx hreads houtput fun y hy => ?_
    rcases List.mem_append.mp hy with hy | hy
    · exact hnone y hy
    · exact hpost y hy

-- Steps before the route has begun are of no concern.
theorem Carries.leads (h : ρ.Carries inputs xs) (hpre : ∀ x ∈ pre, ¬ρ.main x) :
    ρ.Leads inputs (pre ++ xs) := by
  -- a step of the route lies beyond what comes before the route
  have hbeyond {ys zs : List α} {x : α} (hsplit : pre ++ xs = ys ++ x :: zs) (hx : ρ.main x) :
      ∃ ys', xs = ys' ++ x :: zs := by
    rcases List.append_eq_append_iff.mp hsplit with ⟨ys', rfl, hxs⟩ | ⟨bs, hys, hzs⟩
    · exact ⟨ys', hxs⟩
    · cases bs with
      | nil => exact ⟨[], hzs.symm⟩
      | cons b bs =>
        obtain ⟨rfl, -⟩ := List.cons.inj hzs
        exact absurd hx (hpre x (by simp [hys]))
  constructor
  · obtain ⟨pre', x, post, rfl, hx, hpre', hreads⟩ := h.exists_first
    refine ⟨pre ++ pre', x, post, by simp, hx, fun y hy => ?_, hreads⟩
    rcases List.mem_append.mp hy with hy | hy
    · exact hpre y hy
    · exact hpre' y hy
  · intro ys x mid y zs hsplit hx hy hmid
    obtain ⟨ys', hxs⟩ := hbeyond hsplit hx
    exact h.next hxs hx hy hmid
  · intro ys x zs hsplit hx hpost
    obtain ⟨ys', hxs⟩ := hbeyond hsplit hx
    exact h.output_mem hxs hx hpost

-- Elements that play the same part in two routes.
structure Alike (ρ : Route α τ) (σ : Route β τ) (x : α) (y : β) : Prop where
  main : ρ.main x ↔ σ.main y
  reads : ρ.reads x = σ.reads y
  writes : ρ.writes x = σ.writes y

theorem not_main_of_alike {ys : List β} (hxs : List.Forall₂ (Alike ρ σ) xs ys)
    (h : ∀ x ∈ xs, ¬ρ.main x) : ∀ y ∈ ys, ¬σ.main y := by
  induction hxs with
  | nil => simp
  | cons hxy _ ih =>
    rw [List.forall_mem_cons] at h ⊢
    exact ⟨mt hxy.main.mpr h.1, ih h.2⟩

-- What one list carries, a list of the same traffic carries as well.
theorem Carries.transfer {ys : List β} (h : ρ.Carries held xs) (hcarriers : σ.carriers = ρ.carriers)
    (houtput : σ.output = ρ.output) (hxs : List.Forall₂ (Alike ρ σ) xs ys) :
    σ.Carries held ys := by
  induction h generalizing ys with
  | skip hskip hkeeps _ ih =>
    obtain ⟨y, ys, hy, hys, rfl⟩ := List.forall₂_cons_left_iff.mp hxs
    exact .skip (mt hy.main.mpr hskip) (hy.writes ▸ hkeeps) (ih hys)
  | step hx hreads hcarrier hwrites _ ih =>
    obtain ⟨y, ys, hy, hys, rfl⟩ := List.forall₂_cons_left_iff.mp hxs
    exact .step (hy.main.mp hx) (hy.reads ▸ hreads) (hcarriers ▸ hcarrier) (hy.writes ▸ hwrites)
      (ih hys)
  | last hx hreads hout hnone =>
    obtain ⟨y, ys, hy, hys, rfl⟩ := List.forall₂_cons_left_iff.mp hxs
    exact .last (hy.main.mp hx) (hy.reads ▸ hreads) (houtput ▸ hy.writes ▸ hout)
      (not_main_of_alike hys hnone)

-- What a route leads through one list, it leads through a list of the same traffic that stands
-- among strangers.
theorem Carries.leads_of_alike {ys before after : List β} (h : ρ.Carries inputs xs)
    (hcarriers : σ.carriers = ρ.carriers) (houtput : σ.output = ρ.output)
    (hpre : ∀ x ∈ pre, ¬ρ.main x) (hys : List.Forall₂ (Alike ρ σ) (pre ++ xs) ys)
    (hbefore : ∀ y ∈ before, ¬σ.main y) (hafter : ∀ y ∈ after, ¬σ.main y) :
    σ.Leads inputs (before ++ (ys ++ after)) := by
  have hflip : List.Forall₂ (fun y x => Alike ρ σ x y) ys (pre ++ xs) := hys.flip
  have hhead := (List.forall₂_take_append _ _ _ hflip).flip
  have htail := (List.forall₂_drop_append _ _ _ hflip).flip
  have hsplit : before ++ (ys ++ after) =
      (before ++ ys.take pre.length) ++ (ys.drop pre.length ++ after) := by
    rw [List.append_assoc, ← List.append_assoc (ys.take _), List.take_append_drop]
  rw [hsplit]
  refine ((h.transfer hcarriers houtput htail).append hafter).leads fun y hy => ?_
  rcases List.mem_append.mp hy with hy | hy
  · exact hbefore y hy
  · exact not_main_of_alike hhead hpre y hy

end Route

end DenoisePlanner
