import Mathlib.Logic.ExistsUnique
import DenoisePlanner.Proofs.Emission
import DenoisePlanner.Proofs.Schedule

namespace DenoisePlanner

-- A wish for a pooled texture.
inductive TextureRequest where
  | permanent (texture : Texture)
  | transient (texture : Texture)

def Declaring.request : TextureRequest → Declaring Slot
  | .permanent texture => addPermanent texture
  | .transient texture => addTransient texture

-- The state that a step leaves behind, whether it succeeds or not.
def Draft.after (d : Draft) (x : Declaring α) : Draft :=
  match x d with
  | .ok _ d' => d'
  | .error _ d' => d'

-- A new denoiser over the given tables that has asked for textures and for nothing else.
inductive Declarations.Prepared (tables : Declarations) (name : String) (defines : List Define)
    (sharedSize : Nat) : Draft → Prop where
  | new : Prepared tables name defines sharedSize (tables.draft name defines sharedSize)
  | request {d : Draft} (r : TextureRequest) :
    Prepared tables name defines sharedSize d →
      Prepared tables name defines sharedSize (d.after (Declaring.request r))

theorem Declaring.after_onPools (x : Allotting α) (d : Draft) :
    ∃ pools claims, d.after (onPools x) =
      ⟨{ d.tables with pools := pools }, { d.denoiser with claims := claims }⟩ := by
  unfold Draft.after onPools
  dsimp only
  cases x ⟨d.tables.pools, d.denoiser.claims⟩ with
  | ok a s => exact ⟨s.pools, s.claims, rfl⟩
  | error e s => exact ⟨s.pools, s.claims, rfl⟩

-- Texture requests leave no trace outside pools and claims.
theorem Declarations.Prepared.eq_draft {tables : Declarations} {name : String}
    {defines : List Define} {sharedSize : Nat} {d : Draft}
    (h : tables.Prepared name defines sharedSize d) :
    ∃ pools claims, d = ⟨{ tables with pools := pools },
      { (tables.draft name defines sharedSize).denoiser with claims := claims }⟩ := by
  induction h with
  | new => exact ⟨tables.pools, _, rfl⟩
  | request r _ ih =>
    obtain ⟨pools, claims, rfl⟩ := ih
    cases r with
    | permanent texture =>
      obtain ⟨pools', claims', h⟩ := Declaring.after_onPools (.addPermanent texture)
        ⟨{ tables with pools := pools },
          { (tables.draft name defines sharedSize).denoiser with claims := claims }⟩
      exact ⟨pools', claims', h⟩
    | transient texture =>
      obtain ⟨pools', claims', h⟩ := Declaring.after_onPools (.addTransient texture)
        ⟨{ tables with pools := pools },
          { (tables.draft name defines sharedSize).denoiser with claims := claims }⟩
      exact ⟨pools', claims', h⟩

namespace DeclaredPass

-- The dispatches of a pass, one for each of its specialisations.
def Contains (pass : DeclaredPass) (n : Nat) : Prop :=
  pass.base ≤ n ∧ n < pass.base + Specialization.count pass.conditions

-- Passes that occupy the dispatches from `start` to `stop`, one behind the other.
def Tiles : Nat → List DeclaredPass → Nat → Prop
  | start, [], stop => start = stop
  | start, pass :: passes, stop =>
    pass.base = start ∧ Tiles (start + Specialization.count pass.conditions) passes stop

theorem contains_dispatch_select (pass : DeclaredPass) (active : Condition → Bool) :
    pass.Contains (pass.dispatch (.select pass.conditions active)) := by
  have := Specialization.bitsOf_lt_count active pass.conditions
  simp only [Contains, dispatch, Specialization.bits_select]
  omega

theorem Tiles.start_le_of_mem {start stop : Nat} {passes : List DeclaredPass}
    (h : Tiles start passes stop) {pass : DeclaredPass} (hp : pass ∈ passes) :
    start ≤ pass.base := by
  induction passes generalizing start with
  | nil => cases hp
  | cons first passes ih =>
    rcases List.mem_cons.mp hp with rfl | hp
    · exact Nat.le_of_eq h.1.symm
    · exact Nat.le_trans (Nat.le_add_right ..) (ih h.2 hp)

-- Every dispatch between the two ends belongs to the pass at exactly one position.
theorem Tiles.existsUnique {start stop : Nat} {passes : List DeclaredPass}
    (h : Tiles start passes stop) {n : Nat} (hstart : start ≤ n) (hstop : n < stop) :
    ∃! j : Nat, ∃ pass : DeclaredPass, passes[j]? = some pass ∧ pass.Contains n := by
  induction passes generalizing start with
  | nil =>
    have : start = stop := h
    omega
  | cons first passes ih =>
    obtain ⟨hbase, hrest⟩ := h
    by_cases hfirst : n < start + Specialization.count first.conditions
    · refine ⟨0, ⟨first, rfl, by rw [hbase]; exact hstart, by rwa [hbase]⟩, ?_⟩
      rintro (_ | j) ⟨pass, hj, hcontains⟩
      · rfl
      · have := hrest.start_le_of_mem (List.mem_of_getElem? hj)
        have := hcontains.1
        omega
    · obtain ⟨j, ⟨pass, hj, hcontains⟩, hunique⟩ := ih hrest (by omega)
      refine ⟨j + 1, ⟨pass, hj, hcontains⟩, ?_⟩
      rintro (_ | k) ⟨other, hk, hother⟩
      · obtain rfl : first = other := by simpa using hk
        have := hother.2
        omega
      · rw [hunique k ⟨other, hk, hother⟩]

end DeclaredPass

namespace ScheduledPass

theorem tiles_recorded (base : Nat) (table : List ScheduledPass) :
    DeclaredPass.Tiles base (recorded base table) (base + dispatchCount table) := by
  induction table generalizing base with
  | nil => rfl
  | cons e es ih =>
    refine ⟨rfl, ?_⟩
    rw [dispatchCount, ← Nat.add_assoc]
    exact ih _

theorem map_recorded (base : Nat) (table : List ScheduledPass) :
    (recorded base table).map (fun p => (p.stage, p.conditions)) =
      table.map fun e => (e.pass.stage, e.pass.conditions) := by
  conv => rhs; rw [← snd_place base table]
  simp [recorded, declared]

theorem getElem?_snd_place {base j : Nat} {table : List ScheduledPass} {b : Nat}
    {e : ScheduledPass} (h : (place base table)[j]? = some (b, e)) : table[j]? = some e := by
  rw [← snd_place base table, List.getElem?_map, h, Option.map_some]

-- What a frame selects of a recorded table are specialisations of its passes.
theorem select_recorded {base : Nat} {table : List ScheduledPass} {switches : Switches}
    (hpassthrough : switches.isPassthrough = false) {selected : Selected}
    (h : selected ∈ Selected.select (recorded base table) switches) :
    ∃ (j : Nat) (b : Nat) (e : ScheduledPass), (place base table)[j]? = some (b, e) ∧
      Selected.Runs switches e.pass.stage selected.atrous ∧
      selected.dispatch = (e.declared b).dispatch
        (.select e.pass.conditions (Selected.assignment switches selected.atrous)) := by
  rw [Emission.select_eq, recorded, Emission.all_map] at h
  simp only [List.map_map, List.mem_map] at h
  obtain ⟨emission, hmem, rfl⟩ := h
  obtain ⟨hplace, hactive, hruns⟩ := Emission.of_mem_all hpassthrough hmem
  obtain ⟨j, hj⟩ := List.getElem?_of_mem hplace
  refine ⟨j, emission.pass.1, emission.pass.2, hj, hruns, ?_⟩
  exact hactive ▸ rfl

end ScheduledPass

-- Dispatch `n` was built for a pass under the given truth values: it has the pass's stage, its
-- shader is compiled with the denoiser's defines and then one for each condition, and it binds
-- the inputs and outputs that the pass wants under exactly these values.
def Declarations.BuiltFor (tables : Declarations) (claims : Claims) (defines : List Define)
    (pass : Pass) (active : Condition → Bool) (n : Nat) : Prop :=
  ∃ dispatch pipeline, ∃ s ∈ Specialization.all pass.conditions,
    tables.dispatches[n]? = some dispatch ∧ dispatch.stage = pass.stage ∧
    tables.pipelines.pipelines[dispatch.pipeline]? = some pipeline ∧
    pipeline.identifier = ShaderKey.identifier
      ⟨pass.shader, defines ++ pass.conditions.map fun c => .flag c.define (active c)⟩ ∧
    (∀ c ∈ pass.conditions, s.has c = active c) ∧
    (dispatch.bindings.slice tables.bindings).map some =
      claims.bindings tables.swaps (pass.bindings s)

theorem Declarations.Realizes.builtFor {tables : Declarations} {author : Author}
    {e : ScheduledPass} {active : Condition → Bool} {n : Nat}
    (h : tables.Realizes author e (.select e.pass.conditions active) n) :
    tables.BuiltFor author.claims e.defines e.pass active n := by
  obtain ⟨position, span, pipeline, hdispatch, hpipeline, hid, -, -, hbindings⟩ := h
  refine ⟨_, pipeline, _, Specialization.select_mem_all _ active, hdispatch, rfl, hpipeline, ?_, ?_,
    hbindings⟩
  · rw [hid, ScheduledPass.key, Specialization.defines_select]
  · intro c hc
    rw [Specialization.has_select, decide_eq_true hc, Bool.true_and]

theorem Draft.Declares.tiles {d d' : Draft} {table : List ScheduledPass}
    (h : d.Declares d' table) :
    DeclaredPass.Tiles d.tables.dispatches.size
      (ScheduledPass.recorded d.tables.dispatches.size table) d'.tables.dispatches.size := by
  rw [h.size]
  exact ScheduledPass.tiles_recorded _ _

namespace Draft

variable {tables : Declarations} {name : String} {defines : List Define} {sharedSize : Nat}
  {d d' : Draft} {passes : List Pass}

theorem eq_clear_of_mem_clears {slots : List Slot} {e : ScheduledPass} (h : e ∈ d.clears slots) :
    ∃ slot texture, e = .clear slot texture := by
  obtain ⟨slot, -, hslot⟩ := List.mem_filterMap.mp h
  obtain ⟨texture, -, rfl⟩ := Option.map_eq_some_iff.mp hslot
  exact ⟨slot, texture, rfl⟩

theorem map_clears (slots : List Slot) :
    (d.clears slots).map (fun e => (e.pass.stage, e.pass.conditions)) =
      List.replicate (d.clears slots).length (.clear, []) := by
  refine List.eq_replicate_iff.mpr ⟨List.length_map .., fun x hx => ?_⟩
  obtain ⟨e, he, rfl⟩ := List.mem_map.mp hx
  obtain ⟨slot, texture, rfl⟩ := eq_clear_of_mem_clears he
  rfl

-- Declaration and selection count the specialisations of a pass alike: whatever the table, each
-- dispatch that a frame selects was built for the conditions of that frame.
theorem declare_agrees_with_select (hprepared : tables.Prepared name defines sharedSize d)
    (hdeclare : Declaring.declare passes d = .ok ⟨⟩ d') :
    ∃ layout, d'.finish = .ok layout ∧
      layout.dispatches = ⟨tables.dispatches.size, d'.tables.dispatches.size⟩ ∧
      layout.passes.map (fun p => (p.stage, p.conditions)) =
        List.replicate layout.claims.permanentCount (.clear, []) ++
          passes.map (fun p => (p.stage, p.conditions)) ∧
      DeclaredPass.Tiles layout.dispatches.start layout.passes layout.dispatches.stop ∧
      (∀ n, layout.dispatches.start ≤ n → n < layout.dispatches.stop →
        ∃! j : Nat, ∃ pass : DeclaredPass, layout.passes[j]? = some pass ∧ pass.Contains n) ∧
      ∀ switches : Switches, switches.isPassthrough = false →
        ∀ selected ∈ Selected.select layout.passes switches, ∃ j declared,
          layout.passes[j]? = some declared ∧ declared.Contains selected.dispatch ∧
          Selected.Runs switches declared.stage selected.atrous ∧
          (j < layout.claims.permanentCount ∨ ∃ i pass,
            j = layout.claims.permanentCount + i ∧ passes[i]? = some pass ∧
            d'.tables.BuiltFor layout.claims defines pass
              (Selected.assignment switches selected.atrous) selected.dispatch) := by
  obtain ⟨pools, claims, rfl⟩ := hprepared.eq_draft
  obtain ⟨h, hlength⟩ := declare_ok rfl hdeclare
  refine ⟨_, finish_declare rfl rfl hdeclare, rfl, ?_, h.tiles,
    fun n hstart hstop => h.tiles.existsUnique hstart hstop, ?_⟩
  · rw [ScheduledPass.map_recorded, schedule, List.map_append, map_clears, hlength, List.map_map]
    rfl
  · intro switches hpassthrough selected hselected
    obtain ⟨j, b, e, hj, hruns, hdispatch⟩ :=
      ScheduledPass.select_recorded hpassthrough hselected
    refine ⟨j, e.declared b, ?_, ?_, hruns, ?_⟩
    · rw [ScheduledPass.recorded, List.getElem?_map, hj, Option.map_some]
    · rw [hdispatch]
      exact DeclaredPass.contains_dispatch_select ..
    · have hbuilt := (h.realizes b e (List.mem_of_getElem? hj) _ (Specialization.select_mem_all _
        (Selected.assignment switches selected.atrous))).builtFor
      have htable := ScheduledPass.getElem?_snd_place hj
      rw [schedule, List.getElem?_append, hlength] at htable
      split at htable
      · exact .inl ‹_›
      · rename_i hclears
        rw [List.getElem?_map] at htable
        obtain ⟨pass, hpass, rfl⟩ := Option.map_eq_some_iff.mp htable
        exact .inr ⟨_, pass, (Nat.add_sub_of_le (Nat.le_of_not_lt hclears)).symm, hpass,
          hdispatch ▸ hbuilt⟩

-- Two A-trous passes between a permanent texture and the host.
def atrousPair : List Pass :=
  [{ stage := .atrousFirst
     shader := "First"
     bindings := fun _ => ⟨[.host (.input .signal)], [.pooled (.permanent 0)]⟩ },
   { stage := .atrousLast
     shader := "Last"
     conditions := [.fromPong]
     bindings := fun _ => ⟨[.pooled (.permanent 0)], [.host (.output .signal)]⟩ }]

theorem declare_agrees_with_select_atrousPair :
    ∃ d d' layout, Declarations.Prepared {} "Pair" [] 0 d ∧
      Declaring.declare atrousPair d = .ok ⟨⟩ d' ∧ d'.finish = .ok layout ∧
      ∀ selected ∈ Selected.select layout.passes {}, ∃ declared ∈ layout.passes,
        declared.Contains selected.dispatch := by
  let d := (Declarations.draft {} "Pair" [] 0).after
    (Declaring.request (.permanent ⟨.rgba16Sfloat, 1⟩))
  have hd : Declarations.Prepared {} "Pair" [] 0 d := .request _ .new
  have hok : Declaring.succeeds (Declaring.declare atrousPair) d = true := by decide +kernel
  obtain ⟨⟨⟩, d', hdeclare⟩ := Declaring.exists_of_succeeds hok
  obtain ⟨layout, hfinish, -, -, -, -, hselect⟩ := declare_agrees_with_select hd hdeclare
  refine ⟨d, d', layout, hd, hdeclare, hfinish, fun selected hselected => ?_⟩
  obtain ⟨j, declared, hj, hcontains, -⟩ := hselect _ (by decide +kernel) selected hselected
  exact ⟨declared, List.mem_of_getElem? hj, hcontains⟩

end Draft

end DenoisePlanner
