import DenoisePlanner.Proofs.Installed
import DenoisePlanner.Proofs.Retry

namespace DenoisePlanner

open Declaring

-- A denoiser whose declaration is over or under way, with what is its own.
structure Owner where
  claims : Claims
  dispatches : Span
  swaps : Span

namespace Claims

-- The claims lie inside the pools.
structure Within (claims : Claims) (pools : Pools) : Prop where
  permanent : claims.base + claims.permanentCount ≤ pools.permanent.size
  transient : ∀ i ∈ claims.transient, i < pools.transient.size

-- Claims that were made earlier still hold.
structure Widens (claims claims' : Claims) : Prop where
  base : claims'.base = claims.base
  permanentCount : claims.permanentCount ≤ claims'.permanentCount
  transient : ∀ i ∈ claims.transient, i ∈ claims'.transient

-- What the denoiser may bind: textures of the host as they are meant, and pooled textures of its
-- own.
def Permits (claims : Claims) (pools : Pools) (resource : BoundResource) : Prop :=
  match resource.kind with
  | .input _ => resource.access = .read
  | .output _ => resource.access = .write
  | .permanentPool => resource.index < pools.permanent.size ∧ claims.Owns resource.index
  | .transientPool => resource.index < pools.transient.size ∧ resource.index ∈ claims.transient

-- The same of a binding, whose texture may depend on the roles of the moment.
def Rightful (claims : Claims) (swaps : SwapTable) (access : Access) : Binding → Prop
  | .fixed resource => resource.access = access ∧ match resource.kind with
    | .input _ => access = .read
    | .output _ => access = .write
    | .permanentPool => claims.Owns resource.index
    | .transientPool => resource.index ∈ claims.transient
  | .swapping entry index a => a = access ∧ claims.Owns index ∧
    ∃ pair, swaps.pairs[entry]? = some pair ∧ claims.Owns pair.first ∧ claims.Owns pair.second

end Claims

-- Pairs keep their places and their textures, whatever roles these have.
def SwapTable.Retains (swaps swaps' : SwapTable) : Prop :=
  ∀ (i : Nat) pair, swaps.pairs[i]? = some pair →
    ∃ pair', swaps'.pairs[i]? = some pair' ∧ pair'.sides = pair.sides

namespace SwapTable

variable {swaps swaps' : SwapTable}

theorem Retains.refl (swaps : SwapTable) : swaps.Retains swaps :=
  fun _ pair hpair => ⟨pair, hpair, rfl⟩

theorem Retains.of_grows {P : SwapPair → Prop} (h : Grows P swaps.pairs swaps'.pairs) :
    swaps.Retains swaps' :=
  fun _ pair hpair => ⟨pair, h.getElem? hpair, rfl⟩

theorem Retains.size_le (h : swaps.Retains swaps') : swaps.size ≤ swaps'.size := by
  by_contra hlt
  have hlast : swaps'.size < swaps.pairs.size := Nat.lt_of_not_le hlt
  obtain ⟨pair, hpair, -⟩ := h _ _ (Array.getElem?_eq_getElem hlast)
  exact Nat.lt_irrefl _ (Array.getElem?_eq_some_iff.mp hpair).1

theorem retains_exchanged (swaps : SwapTable) (span : Span) :
    swaps.Retains (swaps.exchanged span) := by
  intro i pair hpair
  have hsides : ((swaps.exchanged span).pairs.map SwapPair.sides)[i]? =
      (swaps.pairs.map SwapPair.sides)[i]? := by rw [sides_exchanged]
  rw [Array.getElem?_map, Array.getElem?_map, hpair] at hsides
  exact Option.map_eq_some_iff.mp hsides

end SwapTable

namespace Claims

variable {claims claims' : Claims} {swaps swaps' : SwapTable} {access : Access} {b : Binding}

theorem Widens.refl (claims : Claims) : claims.Widens claims := ⟨rfl, Nat.le_refl _, fun _ h => h⟩

theorem Widens.owns (h : claims.Widens claims') {i : Nat} (hi : claims.Owns i) :
    claims'.Owns i := by
  have hbase := h.base
  have hcount := h.permanentCount
  obtain ⟨hstart, hstop⟩ := hi
  exact ⟨by omega, by omega⟩

theorem Rightful.mono (h : claims.Rightful swaps access b) (hclaims : claims.Widens claims')
    (hswaps : swaps.Retains swaps') : claims'.Rightful swaps' access b := by
  cases b with
  | fixed resource =>
    obtain ⟨kind, index, a⟩ := resource
    obtain ⟨haccess, hkind⟩ := h
    refine ⟨haccess, ?_⟩
    cases kind with
    | input _ => exact hkind
    | output _ => exact hkind
    | transientPool => exact hclaims.transient _ hkind
    | permanentPool => exact hclaims.owns hkind
  | swapping entry index a =>
    obtain ⟨haccess, hindex, pair, hpair, hfirst, hsecond⟩ := h
    obtain ⟨pair', hpair', hsides⟩ := hswaps entry pair hpair
    simp only [SwapPair.sides, Prod.mk.injEq] at hsides
    refine ⟨haccess, hclaims.owns hindex, pair', hpair', ?_, ?_⟩
    · rw [hsides.1]
      exact hclaims.owns hfirst
    · rw [hsides.2]
      exact hclaims.owns hsecond

-- The roles of the moment choose between two textures of the denoiser.
theorem Rightful.resolve (h : claims.Rightful swaps access b) {pools : Pools}
    (hwithin : claims.Within pools) :
    (b.resolve swaps).access = access ∧ claims.Permits pools (b.resolve swaps) := by
  have howned {i : Nat} (hi : claims.Owns i) : i < pools.permanent.size ∧ claims.Owns i :=
    ⟨Nat.lt_of_lt_of_le hi.2 hwithin.permanent, hi⟩
  cases b with
  | fixed resource =>
    obtain ⟨kind, index, a⟩ := resource
    obtain ⟨rfl, hkind⟩ := h
    refine ⟨rfl, ?_⟩
    cases kind with
    | input _ => exact hkind
    | output _ => exact hkind
    | transientPool => exact ⟨hwithin.transient _ hkind, hkind⟩
    | permanentPool => exact howned hkind
  | swapping entry index a =>
    obtain ⟨rfl, hindex, pair, hpair, hfirst, hsecond⟩ := h
    refine ⟨rfl, ?_⟩
    have hrole : swaps.resolve entry index = pair.resolve index := by
      rw [SwapTable.resolve, hpair]
    have howns : claims.Owns (swaps.resolve entry index) := by
      rw [hrole, SwapPair.resolve]
      split
      · split
        · exact hsecond
        · exact hfirst
      · exact hindex
    exact howned howns

theorem attach_rightful {r : Reference} (hadmissible : admissible access r = true)
    (h : claims.attach swaps access r = .ok (b, swaps')) : claims.Rightful swaps' access b := by
  rcases attach_eq_ok_iff.mp h with ⟨kind, rfl, rfl, rfl⟩ |
    ⟨slot, kind, index, rfl, hslot, rfl, rfl⟩ | ⟨i, j, entry, rfl, hi, hj, hregister, rfl⟩
  · cases kind <;> cases access <;>
      simp [admissible, ResourceKind.isInput, ResourceKind.isOutput, Rightful] at hadmissible ⊢
  · refine ⟨rfl, ?_⟩
    cases slot with
    | permanent i =>
      obtain ⟨hi, rfl, rfl⟩ := resolve_permanent_ok hslot
      exact owns_base_add hi
    | transient i =>
      simp only [Claims.resolve] at hslot
      split at hslot
      · cases hslot
        exact Array.mem_of_getElem? ‹_›
      · cases hslot
  · obtain ⟨-, hfound, -⟩ := SwapTable.register_ok hregister
    obtain ⟨pair, hpair, hsides⟩ := SwapTable.find?_eq_some hfound
    have hi := owns_base_add hi
    have hj := owns_base_add hj
    refine ⟨rfl, hi, pair, hpair, ?_⟩
    obtain ⟨hfirst, hsecond⟩ | ⟨hfirst, hsecond⟩ := hsides
    · rw [hfirst, hsecond]
      exact ⟨hi, hj⟩
    · rw [hfirst, hsecond]
      exact ⟨hj, hi⟩

end Claims

-- One dispatch of the tables, as its denoiser has to declare it: inputs before outputs, and a
-- pipeline that expects just these.
structure Declarations.Built (t : Declarations) (claims : Claims) (dispatch : DeclaredDispatch) :
    Prop where
  inside : dispatch.bindings.start ≤ dispatch.bindings.stop ∧
    dispatch.bindings.stop ≤ t.bindings.size
  pipeline : ∃ pipeline inputs outputs,
    t.pipelines.pipelines[dispatch.pipeline]? = some pipeline ∧
    dispatch.bindings.slice t.bindings = inputs ++ outputs ∧
    (∀ b ∈ inputs, claims.Rightful t.swaps .read b) ∧
    (∀ b ∈ outputs, claims.Rightful t.swaps .write b) ∧
    pipeline.layout =
      ⟨dispatch.threads, inputs.length, outputs.length, dispatch.data.hasShared⟩
  downsample : dispatch.downsample ≠ 0
  repeats : dispatch.repeats ≠ 0

-- Denoisers declare one after the other.
structure Owner.Precedes (a b : Owner) : Prop where
  permanent : a.claims.base + a.claims.permanentCount ≤ b.claims.base
  dispatches : a.dispatches.stop ≤ b.dispatches.start
  swaps : a.swaps.stop ≤ b.swaps.start

structure Owner.Inside (owner : Owner) (t : Declarations) : Prop where
  claims : owner.claims.Within t.pools
  dispatches : owner.dispatches.start ≤ owner.dispatches.stop ∧
    owner.dispatches.stop ≤ t.dispatches.size
  swaps : owner.swaps.start ≤ owner.swaps.stop ∧ owner.swaps.stop ≤ t.swaps.size

-- The tables after some denoisers have declared in them.
structure Declarations.Kept (t : Declarations) (owners : List Owner) : Prop where
  built : ∀ (n : Nat) dispatch, t.dispatches[n]? = some dispatch →
    ∃ owner ∈ owners, owner.dispatches.start ≤ n ∧ n < owner.dispatches.stop ∧
      t.Built owner.claims dispatch
  apart : t.dispatches.toList.Pairwise fun x y => x.bindings.stop ≤ y.bindings.start
  inside : ∀ owner ∈ owners, owner.Inside t
  precedes : owners.Pairwise Owner.Precedes

-- Tables that have grown, or whose textures have changed roles, with the same dispatches.
structure Declarations.Evolves (t t' : Declarations) : Prop where
  permanent : t.pools.permanent.size ≤ t'.pools.permanent.size
  transient : t.pools.transient.size ≤ t'.pools.transient.size
  swaps : t.swaps.Retains t'.swaps
  bindings : Grows (fun _ => True) t.bindings t'.bindings
  pipelines : Grows (fun _ => True) t.pipelines.pipelines t'.pipelines.pipelines
  dispatches : t'.dispatches = t.dispatches

namespace Declarations

variable {t t' : Declarations} {claims claims' : Claims} {dispatch : DeclaredDispatch}
  {owners : List Owner} {owner owner' : Owner}

theorem Built.mono (h : t.Built claims dispatch) (hclaims : claims.Widens claims')
    (hswaps : t.swaps.Retains t'.swaps) (hbindings : Grows (fun _ => True) t.bindings t'.bindings)
    (hpipelines : Grows (fun _ => True) t.pipelines.pipelines t'.pipelines.pipelines) :
    t'.Built claims' dispatch := by
  obtain ⟨pipeline, inputs, outputs, hpipeline, hslice, hinputs, houtputs, hlayout⟩ := h.pipeline
  refine ⟨⟨h.inside.1, Nat.le_trans h.inside.2 hbindings.size_le⟩, ?_, h.downsample, h.repeats⟩
  refine ⟨pipeline, inputs, outputs, hpipelines.getElem? hpipeline, ?_, ?_, ?_, hlayout⟩
  · rw [hbindings.slice h.inside.2, hslice]
  · exact fun b hb => (hinputs b hb).mono hclaims hswaps
  · exact fun b hb => (houtputs b hb).mono hclaims hswaps

theorem Evolves.within (h : t.Evolves t') (hwithin : claims.Within t.pools) :
    claims.Within t'.pools where
  permanent := Nat.le_trans hwithin.permanent h.permanent
  transient := fun i hi => Nat.lt_of_lt_of_le (hwithin.transient i hi) h.transient

theorem Evolves.inside (h : t.Evolves t') (hinside : owner.Inside t) : owner.Inside t' where
  claims := h.within hinside.claims
  dispatches := by
    rw [h.dispatches]
    exact hinside.dispatches
  swaps := ⟨hinside.swaps.1, Nat.le_trans hinside.swaps.2 h.swaps.size_le⟩

-- The tables evolve around denoisers that are done.
theorem Kept.evolve (h : t.Kept owners) (ht : t.Evolves t') : t'.Kept owners where
  built := fun n dispatch hn => by
    rw [ht.dispatches] at hn
    obtain ⟨x, hx, hstart, hstop, hbuilt⟩ := h.built n dispatch hn
    exact ⟨x, hx, hstart, hstop, hbuilt.mono (.refl _) ht.swaps ht.bindings ht.pipelines⟩
  apart := ht.dispatches ▸ h.apart
  inside := fun x hx => ht.inside (h.inside x hx)
  precedes := h.precedes

-- The last denoiser claims more, and perhaps nothing.
theorem Kept.widen (h : t.Kept (owners ++ [owner])) (hclaims : owner.claims.Widens owner'.claims)
    (hdispatches : owner'.dispatches = owner.dispatches)
    (hswaps : owner'.swaps.start = owner.swaps.start) (hinside : owner'.Inside t) :
    t.Kept (owners ++ [owner']) := by
  obtain ⟨hearlier, -, hlast⟩ := List.pairwise_append.mp h.precedes
  refine ⟨fun n dispatch hn => ?_, h.apart, ?_, ?_⟩
  · obtain ⟨x, hx, hstart, hstop, hbuilt⟩ := h.built n dispatch hn
    rcases List.mem_append.mp hx with hx | hx
    · exact ⟨x, List.mem_append_left _ hx, hstart, hstop, hbuilt⟩
    · rw [List.mem_singleton.mp hx] at hstart hstop hbuilt
      exact ⟨owner', by simp, hdispatches ▸ hstart, hdispatches ▸ hstop,
        hbuilt.mono hclaims (.refl _) (.refl _) (.refl _)⟩
  · exact List.forall_mem_append.mpr
      ⟨fun x hx => h.inside x (List.mem_append_left _ hx), by simpa using hinside⟩
  · refine List.pairwise_append.mpr ⟨hearlier, List.pairwise_singleton _ _, fun x hx y hy => ?_⟩
    have hprecedes := hlast x hx owner (by simp)
    rw [List.mem_singleton.mp hy]
    exact ⟨hclaims.base ▸ hprecedes.permanent, hdispatches ▸ hprecedes.dispatches,
      hswaps ▸ hprecedes.swaps⟩

-- A dispatch with its bindings, at the end of the tables.
theorem Kept.push (h : t.Kept (owners ++ [owner])) {bindings : Array Binding}
    {dispatch : DeclaredDispatch} (hstop : owner.dispatches.stop = t.dispatches.size)
    (hbindings : dispatch.bindings = ⟨t.bindings.size, t.bindings.size + bindings.size⟩)
    (hbuilt : Built { t with bindings := t.bindings ++ bindings } owner.claims dispatch) :
    Kept { t with
        bindings := t.bindings ++ bindings
        dispatches := t.dispatches.push dispatch }
      (owners ++
        [{ owner with dispatches := ⟨owner.dispatches.start, t.dispatches.size + 1⟩ }]) := by
  obtain ⟨hearlier, -, hlast⟩ := List.pairwise_append.mp h.precedes
  have howner := h.inside owner (by simp)
  have hstart := howner.dispatches
  have hgrows : Grows (fun _ => True) t.bindings (t.bindings ++ bindings) := ⟨_, rfl, by simp⟩
  have hstays {claims : Claims} {x : DeclaredDispatch} (hx : t.Built claims x) :
      Built { t with
        bindings := t.bindings ++ bindings
        dispatches := t.dispatches.push dispatch } claims x :=
    hx.mono (.refl _) (.refl _) hgrows (.refl _)
  refine ⟨?_, ?_, ?_, ?_⟩
  · intro n x hn
    rw [Array.getElem?_push] at hn
    split at hn
    · rename_i hlast
      cases hn
      refine ⟨_, List.mem_append_right _ (List.mem_singleton_self _), ?_, ?_, ?_⟩
      · show owner.dispatches.start ≤ n
        omega
      · show n < t.dispatches.size + 1
        omega
      · exact ⟨hbuilt.inside, hbuilt.pipeline, hbuilt.downsample, hbuilt.repeats⟩
    · obtain ⟨y, hy, hstart, hend, hx⟩ := h.built n x hn
      rcases List.mem_append.mp hy with hy | hy
      · exact ⟨y, List.mem_append_left _ hy, hstart, hend, hstays hx⟩
      · rw [List.mem_singleton.mp hy] at hstart hend hx
        refine ⟨_, List.mem_append_right _ (List.mem_singleton_self _), hstart, ?_, hstays hx⟩
        show n < t.dispatches.size + 1
        omega
  · rw [Array.toList_push]
    refine List.pairwise_append.mpr ⟨h.apart, List.pairwise_singleton _ _, fun x hx y hy => ?_⟩
    obtain ⟨n, hn⟩ := List.getElem?_of_mem hx
    obtain ⟨_, _, _, _, hx⟩ := h.built n x (by simpa using hn)
    rw [List.mem_singleton.mp hy, hbindings]
    exact hx.inside.2
  · refine List.forall_mem_append.mpr ⟨fun x hx => ?_, fun x hx => ?_⟩
    · have hinside := h.inside x (List.mem_append_left _ hx)
      refine ⟨hinside.claims, ⟨hinside.dispatches.1, ?_⟩, hinside.swaps⟩
      rw [Array.size_push]
      exact Nat.le_succ_of_le hinside.dispatches.2
    · rw [List.mem_singleton.mp hx]
      refine ⟨howner.claims, ⟨?_, by simp⟩, howner.swaps⟩
      show owner.dispatches.start ≤ t.dispatches.size + 1
      omega
  · refine List.pairwise_append.mpr ⟨hearlier, List.pairwise_singleton _ _, fun x hx y hy => ?_⟩
    have hprecedes := hlast x hx owner (by simp)
    rw [List.mem_singleton.mp hy]
    exact ⟨hprecedes.permanent, hprecedes.dispatches, hprecedes.swaps⟩

end Declarations

namespace Draft

def owner (d : Draft) : Owner where
  claims := d.denoiser.claims
  dispatches := ⟨d.denoiser.dispatchStart, d.tables.dispatches.size⟩
  swaps := ⟨d.denoiser.swapStart, d.tables.swaps.size⟩

-- The tables of a draft, and the pass that is open, before the given denoisers' successor is done.
structure Kept (owners : List Owner) (d : Draft) : Prop where
  tables : d.tables.Kept (owners ++ [d.owner])
  inputs : ∀ pass, d.denoiser.pending = some pass →
    ∀ b ∈ pass.inputs, d.denoiser.claims.Rightful d.tables.swaps .read b
  outputs : ∀ pass, d.denoiser.pending = some pass →
    ∀ b ∈ pass.outputs, d.denoiser.claims.Rightful d.tables.swaps .write b

variable {owners : List Owner} {d d' : Draft}

theorem Kept.inside (h : d.Kept owners) : d.owner.Inside d.tables :=
  h.tables.inside d.owner (by simp)

theorem Kept.within (h : d.Kept owners) : d.denoiser.claims.Within d.tables.pools :=
  h.inside.claims

-- The denoiser goes on in tables that have evolved.
theorem Kept.evolve (h : d.Kept owners) (ht : d.tables.Evolves d'.tables)
    (hclaims : d.denoiser.claims.Widens d'.denoiser.claims)
    (hwithin : d'.denoiser.claims.Within d'.tables.pools)
    (hdispatchStart : d'.denoiser.dispatchStart = d.denoiser.dispatchStart)
    (hswapStart : d'.denoiser.swapStart = d.denoiser.swapStart) :
    d'.tables.Kept (owners ++ [d'.owner]) := by
  have hinside := ht.inside h.inside
  have hwidens : d.owner.claims.Widens d'.owner.claims := hclaims
  apply (h.tables.evolve ht).widen hwidens
  · simp only [owner, hdispatchStart, ht.dispatches]
  · exact hswapStart
  · refine ⟨hwithin, ?_, ?_, Nat.le_refl _⟩
    · simp only [owner, hdispatchStart]
      exact ⟨Nat.le_trans hinside.dispatches.1 hinside.dispatches.2, Nat.le_refl _⟩
    · simp only [owner, hswapStart]
      exact Nat.le_trans hinside.swaps.1 hinside.swaps.2

-- Textures are handed out on top of those there are.
theorem Kept.allot (h : d.Kept owners) {pools : Pools} {claims : Claims}
    (hpermanent : d.tables.pools.permanent.size ≤ pools.permanent.size)
    (htransient : d.tables.pools.transient.size ≤ pools.transient.size)
    (hclaims : d.denoiser.claims.Widens claims) (hwithin : claims.Within pools) :
    (withPools d pools claims).Kept owners where
  tables := by
    have hevolves : d.tables.Evolves { d.tables with pools := pools } :=
      ⟨hpermanent, htransient, .refl _, .refl _, .refl _, rfl⟩
    exact h.evolve hevolves hclaims hwithin rfl rfl
  inputs := fun pass hpass b hb => (h.inputs pass hpass b hb).mono hclaims (.refl _)
  outputs := fun pass hpass b hb => (h.outputs pass hpass b hb).mono hclaims (.refl _)

-- Pairs are registered and a pass is open.
theorem Kept.connect (h : d.Kept owners) {swaps : SwapTable} {pending : Option OpenPass}
    (hswaps : d.tables.swaps.Retains swaps)
    (hinputs : ∀ pass, pending = some pass →
      ∀ b ∈ pass.inputs, d.denoiser.claims.Rightful swaps .read b)
    (houtputs : ∀ pass, pending = some pass →
      ∀ b ∈ pass.outputs, d.denoiser.claims.Rightful swaps .write b) :
    Kept owners ⟨{ d.tables with swaps := swaps }, { d.denoiser with pending := pending }⟩ := by
  have hevolves : d.tables.Evolves { d.tables with swaps := swaps } :=
    ⟨Nat.le_refl _, Nat.le_refl _, hswaps, .refl _, .refl _, rfl⟩
  have hwithin := h.within
  exact ⟨h.evolve hevolves (.refl _) hwithin rfl rfl, hinputs, houtputs⟩

theorem Kept.withoutPass (h : d.Kept owners) : d.withoutPass.Kept owners :=
  h.connect (.refl _) (by simp) (by simp)

end Draft

namespace Declaring

variable {α β : Type} {owners : List Owner} {d d' : Draft}

-- What keeps the tables in order, whether it succeeds or fails.
def Upholds (owners : List Owner) (x : Declaring α) : Prop :=
  ∀ ⦃d : Draft⦄, d.Kept owners → (d.after x).Kept owners

theorem Upholds.of_cases {x : Declaring α}
    (hok : ∀ ⦃d d' a⦄, d.Kept owners → x d = .ok a d' → d'.Kept owners)
    (herror : ∀ ⦃d d' failure⦄, d.Kept owners → x d = .error failure d' → d'.Kept owners) :
    Upholds owners x := by
  intro d h
  unfold Draft.after
  split
  · exact hok h ‹_›
  · exact herror h ‹_›

theorem Upholds.of_ok {x : Declaring α} (hx : Upholds owners x) {d d' : Draft} {a : α}
    (h : d.Kept owners) (hok : x d = .ok a d') : d'.Kept owners := by
  have hd := hx h
  rwa [Draft.after, hok] at hd

theorem Upholds.of_error {x : Declaring α} (hx : Upholds owners x) {d d' : Draft}
    {failure : Failure} (h : d.Kept owners) (herror : x d = .error failure d') :
    d'.Kept owners := by
  have hd := hx h
  rwa [Draft.after, herror] at hd

theorem Upholds.bind {x : Declaring α} {f : α → Declaring β} (hx : Upholds owners x)
    (hf : ∀ a, Upholds owners (f a)) : Upholds owners (x >>= f) := by
  apply Upholds.of_cases
  · intro d d' b h hok
    obtain ⟨a, d₁, hfirst, hrest⟩ := bind_eq_ok_iff.mp hok
    exact (hf a).of_ok (hx.of_ok h hfirst) hrest
  · intro d d' failure h herror
    rcases bind_eq_error_iff.mp herror with hfirst | ⟨a, d₁, hfirst, hrest⟩
    · exact hx.of_error h hfirst
    · exact (hf a).of_error (hx.of_ok h hfirst) hrest

theorem Upholds.forM {f : α → Declaring Unit} (hf : ∀ a, Upholds owners (f a)) :
    (l : List α) → Upholds owners (l.forM f)
  | [] => fun _ h => h
  | a :: l => (hf a).bind fun _ => Upholds.forM hf l

theorem Upholds.discard {x : Declaring α} (hx : Upholds owners x) :
    Upholds owners (Functor.discard x) := by
  apply Upholds.of_cases
  · intro d d' _ h hok
    obtain ⟨a, ha⟩ := discard_eq_ok_iff.mp hok
    exact hx.of_ok h ha
  · intro d d' failure h herror
    exact hx.of_error h (discard_eq_error_iff.mp herror)

theorem upholds_get : Upholds owners get := fun _ h => h

theorem upholds_throw (e : Failure) : Upholds owners (throw e : Declaring α) := fun _ h => h

theorem upholds_addPermanent (texture : Texture) : Upholds owners (addPermanent texture) := by
  apply Upholds.of_cases
  · intro d d' slot h hok
    obtain ⟨s, hs, rfl⟩ := onPools_ok hok
    obtain ⟨-, -, rfl⟩ := Allotting.addPermanent_ok hs
    have hwithin := h.within
    apply h.allot
    · simp
    · exact Nat.le_refl _
    · exact ⟨rfl, Nat.le_succ _, fun _ hi => hi⟩
    · refine ⟨?_, hwithin.transient⟩
      have hle := hwithin.permanent
      simp only [Array.size_push]
      omega
  · intro d d' failure h herror
    rw [onPools_error herror fun _ _ => Allotting.addPermanent_error]
    exact h

theorem upholds_addTransient (texture : Texture) : Upholds owners (addTransient texture) := by
  apply Upholds.of_cases
  · intro d d' slot h hok
    have hwithin := h.within
    obtain ⟨s, hs, rfl⟩ := onPools_ok hok
    obtain ⟨i, transient, rfl, -, hi, hle⟩ := Allotting.addTransient_ok hwithin.transient hs
    apply h.allot
    · exact Nat.le_refl _
    · exact hle
    · exact ⟨rfl, Nat.le_refl _, fun _ hj => Array.mem_push_of_mem _ hj⟩
    · refine ⟨hwithin.permanent, fun j hj => ?_⟩
      rcases Array.mem_push.mp hj with hj | rfl
      · exact Nat.lt_of_lt_of_le (hwithin.transient j hj) hle
      · exact hi
  · intro d d' failure h herror
    rw [onPools_error herror fun _ _ => Allotting.addTransient_error]
    exact h

theorem upholds_openPass (stage : Stage) : Upholds owners (openPass stage) := by
  apply Upholds.of_cases
  · intro d d' _ h hok
    obtain ⟨-, rfl⟩ := openPass_ok hok
    apply h.connect (.refl _)
    · rintro pass ⟨⟩
      simp
    · rintro pass ⟨⟩
      simp
  · intro d d' failure h herror
    rw [openPass_error herror]
    exact h

-- A binding joins the open pass on the side that it is made for.
theorem upholds_connect {access : Access} {e : Failure} {f : Binding → OpenPass → OpenPass}
    (r : Reference)
    (hinputs : ∀ b pass, ∀ x ∈ (f b pass).inputs, x ∈ pass.inputs ∨ x = b ∧ access = .read)
    (houtputs : ∀ b pass, ∀ x ∈ (f b pass).outputs, x ∈ pass.outputs ∨ x = b ∧ access = .write) :
    Upholds owners (connect access e f r) := by
  intro d h
  unfold Draft.after
  rw [connect_eq]
  by_cases hadmissible : admissible access r
  · rw [if_pos hadmissible]
    cases hattach : d.denoiser.claims.attach d.tables.swaps access r with
    | error e' => exact h
    | ok attached =>
      obtain ⟨b, swaps⟩ := attached
      have hgrows := Claims.attach_grows hattach
      have hrightful := Claims.attach_rightful hadmissible hattach
      have hretains : d.tables.swaps.Retains swaps := .of_grows hgrows
      cases hpending : d.denoiser.pending with
      | none =>
        have hnone : Draft.Kept owners ⟨{ d.tables with swaps := swaps },
            { d.denoiser with pending := none }⟩ := h.connect hretains (by simp) (by simp)
        rw [← hpending] at hnone
        exact hnone
      | some pass =>
        apply h.connect hretains
        · rintro _ ⟨⟩ x hx
          rcases hinputs b pass x hx with hx | ⟨rfl, haccess⟩
          · exact (h.inputs pass hpending x hx).mono (.refl _) hretains
          · exact haccess ▸ hrightful
        · rintro _ ⟨⟩ x hx
          rcases houtputs b pass x hx with hx | ⟨rfl, haccess⟩
          · exact (h.outputs pass hpending x hx).mono (.refl _) hretains
          · exact haccess ▸ hrightful
  · rw [if_neg hadmissible]
    exact h

theorem upholds_addInput (r : Reference) : Upholds owners (addInput r) := by
  apply upholds_connect r
  · intro b pass x hx
    rcases Array.mem_push.mp hx with hx | rfl
    · exact .inl hx
    · exact .inr ⟨rfl, rfl⟩
  · exact fun b pass x hx => .inl hx

theorem upholds_addOutput (r : Reference) : Upholds owners (addOutput r) := by
  apply upholds_connect r
  · exact fun b pass x hx => .inl hx
  · intro b pass x hx
    rcases Array.mem_push.mp hx with hx | rfl
    · exact .inl hx
    · exact .inr ⟨rfl, rfl⟩

theorem upholds_addDispatch (shader : String) (defines : List Define) (args : DispatchArgs) :
    Upholds owners (addDispatch shader defines args) := by
  apply Upholds.of_cases
  · intro d d' n h hok
    obtain ⟨pass, position, tables, hpending, hdownsample, hrepeats, hadd, hclose⟩ :=
      addDispatch_eq_ok_iff.mp hok
    obtain ⟨pipelines, journal, pipeline, rfl, hgrows, hget, -, hlayout⟩ :=
      Declarations.addPipeline_ok hadd
    cases hclose
    have hevolves : d.tables.Evolves { d.tables with pipelines := pipelines, journal := journal } :=
      ⟨Nat.le_refl _, Nat.le_refl _, .refl _, .refl _, hgrows.mono fun _ _ => trivial, rfl⟩
    have htables := h.tables.evolve hevolves
    have hbuilt : Declarations.Built { d.tables with
        pipelines := pipelines
        journal := journal
        bindings := d.tables.bindings ++ (pass.inputs ++ pass.outputs) }
        d.denoiser.claims (pass.dispatch d.denoiser args position ⟨d.tables.bindings.size,
          d.tables.bindings.size + (pass.inputs ++ pass.outputs).size⟩) := by
      refine ⟨?_, ⟨pipeline, pass.inputs.toList, pass.outputs.toList, hget, ?_, ?_, ?_, ?_⟩,
        hdownsample, hrepeats⟩
      · simp only [OpenPass.dispatch, Array.size_append]
        omega
      · rw [OpenPass.dispatch, Span.slice_appended, Array.toList_append]
      · exact fun b hb => h.inputs pass hpending b (Array.mem_def.mpr hb)
      · exact fun b hb => h.outputs pass hpending b (Array.mem_def.mpr hb)
      · rw [hlayout, Array.length_toList, Array.length_toList]
        rfl
    refine ⟨?_, by simp [Draft.withoutPass], by simp [Draft.withoutPass]⟩
    have hpushed := htables.push rfl rfl hbuilt
    simpa only [Draft.owner, Draft.withoutPass, Array.size_push] using hpushed
  · intro d d' failure h herror
    rw [addDispatch_error herror]
    exact h.withoutPass

theorem upholds_recordPass (pass : DeclaredPass) : Upholds owners (recordPass pass) :=
  fun _ h => ⟨h.tables, h.inputs, h.outputs⟩

theorem upholds_note (event : LogEvent) : Upholds owners (note event) := by
  intro d h
  have hevolves : d.tables.Evolves { d.tables with journal := d.tables.journal.push event } :=
    ⟨Nat.le_refl _, Nat.le_refl _, .refl _, .refl _, .refl _, rfl⟩
  have hwithin := h.within
  exact ⟨h.evolve hevolves (.refl _) hwithin rfl rfl, h.inputs, h.outputs⟩

theorem upholds_declareClear (slot : Slot) : Upholds owners (declareClear slot) := by
  apply upholds_get.bind
  intro d
  dsimp only
  split
  · exact upholds_throw _
  · apply (upholds_openPass _).bind
    intro _
    apply (upholds_addOutput _).bind
    intro _
    apply (upholds_addDispatch ..).bind
    intro base
    exact upholds_recordPass _

theorem upholds_declareSpecialization (pass : Pass) (s : Specialization) :
    Upholds owners (declareSpecialization pass s) := by
  apply (upholds_openPass _).bind
  intro _
  apply (Upholds.forM upholds_addInput _).bind
  intro _
  apply (Upholds.forM upholds_addOutput _).bind
  intro _
  apply upholds_get.bind
  intro d
  exact (upholds_addDispatch ..).discard

theorem upholds_declarePass (pass : Pass) : Upholds owners (declarePass pass) := by
  apply upholds_get.bind
  intro d
  apply (Upholds.forM (upholds_declareSpecialization pass) _).bind
  intro _
  apply upholds_get.bind
  intro d'
  apply (upholds_note _).bind
  intro _
  exact upholds_recordPass _

theorem upholds_declare (passes : List Pass) : Upholds owners (declare passes) := by
  apply upholds_get.bind
  intro d
  apply (Upholds.forM upholds_declareClear _).bind
  intro _
  exact Upholds.forM upholds_declarePass passes

end Declaring

theorem DraftStep.upholds (step : DraftStep) (owners : List Owner) : Upholds owners step.run := by
  cases step with
  | permanent texture => exact (upholds_addPermanent texture).discard
  | transient texture => exact (upholds_addTransient texture).discard
  | pass stage => exact upholds_openPass stage
  | input reference => exact upholds_addInput reference
  | output reference => exact upholds_addOutput reference
  | dispatch shader defines args => exact (upholds_addDispatch shader defines args).discard

end DenoisePlanner
