import Voyager.Kademlia.Kad

/-!
# What `closestPeer` finds

`closestPeer`'s callback never stops, jumps or fails, so its walk is a left fold
over the visiting order (`iterate_of_continue`). That fold keeps the first eligible
peer and replaces it only by a strictly closer one, so the result is an eligible
peer no farther from the target than any other eligible peer, whatever order the
peers are met in (`closestPeer_some`), and `topology.ErrNotFound` exactly when no
peer is eligible (`closestPeer_eq_none`). Since the XOR distance from the target tells
addresses apart (`distance_inj`), that peer is the unique closest one, and every visiting
order ends on it (`closestPeer_unique`).
-/

namespace Voyager.Kademlia
open Voyager.Infinity

/-- A peer `closestPeer` may pick: neither skipped nor sanctioned. -/
def Eligible (spf : Address → Bool) (skip : List Address) (p : Address) : Prop :=
  p ∉ skip ∧ spf p = false

instance (spf : Address → Bool) (skip : List Address) (p : Address) :
    Decidable (Eligible spf skip p) :=
  inferInstanceAs (Decidable (_ ∧ _))

theorem closerStep_snd (addr : Address) (spf : Address → Bool) (skip : List Address)
    (acc : Option Address) (p : Address) (po : Nat) :
    (closerStep addr spf skip acc p po).2 = (false, false, none) := by
  unfold closerStep; split
  · rfl
  · cases acc <;> rfl

/-- One step of `closestPeer`'s fold: the running closest stays empty only past an
ineligible peer, and otherwise is `acc`, or the eligible peer met when it is strictly
closer than `acc`; either way no farther than both. -/
theorem closerStep_fst (addr : Address) (spf : Address → Bool) (skip : List Address)
    (acc : Option Address) (p : Address) (po : Nat) :
    let a := (closerStep addr spf skip acc p po).1
    (a = none ↔ acc = none ∧ ¬Eligible spf skip p) ∧
      ∀ c, a = some c →
        (acc = some c ∨ (c = p ∧ Eligible spf skip p ∧
          ∀ c₀, acc = some c₀ → distance addr c < distance addr c₀)) ∧
        (∀ c₀, acc = some c₀ → distance addr c ≤ distance addr c₀) ∧
        (Eligible spf skip p → distance addr c ≤ distance addr p) := by
  dsimp only; unfold closerStep
  by_cases he : p ∈ skip ∨ spf p = true
  · have hne : ¬Eligible spf skip p := fun ⟨h₁, h₂⟩ => by rcases he with h | h <;> simp_all
    rw [if_pos he]
    exact ⟨by simp [hne], fun c hc =>
      ⟨.inl hc, fun c₀ h₀ => by subst h₀; simp only [Option.some.injEq] at hc; subst hc; rfl,
        fun h => absurd h hne⟩⟩
  · have hel : Eligible spf skip p := by simpa [not_or] using he
    rw [if_neg he]
    cases acc with
    | none => exact ⟨by simp [hel], fun c hc => by
        cases hc; exact ⟨.inr ⟨rfl, hel, by simp⟩, by simp, fun _ => le_refl _⟩⟩
    | some c₀ =>
      simp only [distanceCmp_eq_neg_one]
      split <;> rename_i hd
      · refine ⟨by simp [hel], fun c hc => ?_⟩
        cases hc
        exact ⟨.inr ⟨rfl, hel, fun x hx => by cases hx; exact hd⟩, fun x hx => by cases hx; omega,
          fun _ => le_refl _⟩
      · refine ⟨by simp [hel], fun c hc => ?_⟩
        cases hc; exact ⟨.inl rfl, fun x hx => by cases hx; rfl, fun _ => by omega⟩

/-- The fold of `closestPeer` from a running closest `acc`: the result is `acc` or an
eligible peer met that is strictly closer than `acc`, and it is no farther than `acc`
nor than any eligible peer met. -/
theorem foldl_closer (addr : Address) (spf : Address → Bool) (skip : List Address) :
    ∀ (l : List (Address × Nat)) (acc : Option Address),
      let r := l.foldl (fun s e => (closerStep addr spf skip s e.1 e.2).1) acc
      (r = none ↔ acc = none ∧ ∀ e ∈ l, ¬Eligible spf skip e.1) ∧
      ∀ c, r = some c →
        (acc = some c ∨ ∃ e ∈ l, e.1 = c ∧ Eligible spf skip c ∧
          ∀ c₀, acc = some c₀ → distance addr c < distance addr c₀) ∧
        (∀ c₀, acc = some c₀ → distance addr c ≤ distance addr c₀) ∧
        ∀ e ∈ l, Eligible spf skip e.1 → distance addr c ≤ distance addr e.1
  | [], acc => ⟨by simp, fun c hc =>
      ⟨.inl hc, fun c₀ h₀ => by rw [List.foldl_nil, h₀, Option.some_inj] at hc; rw [hc], by simp⟩⟩
  | (p, po) :: rest, acc => by
    obtain ⟨hn, hs⟩ := closerStep_fst addr spf skip acc p po
    obtain ⟨ihn, ihs⟩ := foldl_closer addr spf skip rest (closerStep addr spf skip acc p po).1
    simp only [List.foldl_cons, List.forall_mem_cons]
    refine ⟨by rw [ihn, hn, and_assoc], fun c hc => ?_⟩
    obtain ⟨hfrom, hstep, hall⟩ := ihs c hc
    -- the running closest after `p`, when `acc` held one or `p` was eligible
    have hnext : acc ≠ none ∨ Eligible spf skip p →
        ∃ c', (closerStep addr spf skip acc p po).1 = some c' :=
      fun h => Option.ne_none_iff_exists'.1 fun hnone => by
        rcases h with h | h
        · exact h (hn.1 hnone).1
        · exact (hn.1 hnone).2 h
    refine ⟨?_, fun c₀ h₀ => ?_, fun hp => ?_, hall⟩
    · rcases hfrom with h | ⟨e, he, rfl, hel, hlt⟩
      · rcases (hs _ h).1 with h' | ⟨rfl, hel, hlt⟩
        · exact .inl h'
        · exact .inr ⟨(_, po), List.mem_cons_self _ _, rfl, hel, hlt⟩
      · refine .inr ⟨e, List.mem_cons_of_mem _ he, rfl, hel, fun c₀ h₀ => ?_⟩
        obtain ⟨c', hc'⟩ := hnext (.inl (by simp [h₀]))
        exact lt_of_lt_of_le (hlt c' hc') ((hs c' hc').2.1 c₀ h₀)
    · obtain ⟨c', hc'⟩ := hnext (.inl (by simp [h₀]))
      exact le_trans (hstep c' hc') ((hs c' hc').2.1 c₀ h₀)
    · obtain ⟨c', hc'⟩ := hnext (.inr hp)
      exact le_trans (hstep c' hc') ((hs c' hc').2.2 hp)

theorem closestPeer_eq_foldl (peers : PSlice) (addr : Address) (spf : Address → Bool)
    (skip : List Address) :
    closestPeer peers addr spf skip =
      peers.entries.foldl (fun s e => (closerStep addr spf skip s e.1 e.2).1) none := by
  unfold closestPeer PSlice.eachBinRev
  rw [iterate_of_continue (closerStep_snd addr spf skip)]

/-- `closestPeer` finds nothing exactly when no peer is eligible. -/
theorem closestPeer_eq_none {peers : PSlice} {addr : Address} {spf : Address → Bool}
    {skip : List Address} :
    closestPeer peers addr spf skip = none ↔ ∀ p ∈ peers, ¬Eligible spf skip p := by
  rw [closestPeer_eq_foldl, (foldl_closer addr spf skip _ none).1]
  simp only [true_and, PSlice.mem_peers]
  constructor
  · rintro h p ⟨i, hi⟩; exact h (p, i) (PSlice.mem_entries.2 hi)
  · rintro h ⟨p, i⟩ hp; exact h p ⟨i, PSlice.mem_entries.1 hp⟩

/-- `closestPeer`'s peer is eligible and no farther from `addr` than any eligible peer. -/
theorem closestPeer_some {peers : PSlice} {addr : Address} {spf : Address → Bool}
    {skip : List Address} {c : Address} (h : closestPeer peers addr spf skip = some c) :
    c ∈ peers ∧ Eligible spf skip c ∧
      ∀ q ∈ peers, Eligible spf skip q → distance addr c ≤ distance addr q := by
  rw [closestPeer_eq_foldl] at h
  obtain ⟨hfrom, -, hall⟩ := (foldl_closer addr spf skip _ none).2 c h
  obtain ⟨⟨p, i⟩, hp, rfl, hel, -⟩ := hfrom.resolve_left (by simp)
  refine ⟨PSlice.mem_peers.2 ⟨i, PSlice.mem_entries.1 hp⟩, hel, fun q hq hqe => ?_⟩
  obtain ⟨j, hj⟩ := PSlice.mem_peers.1 hq
  exact hall (q, j) (PSlice.mem_entries.2 hj) hqe

/-- `closestPeer`'s fold from nothing ends on `c` exactly when `c` is an eligible peer met
that is strictly closer to `addr` than every other eligible peer met. -/
theorem foldl_closer_eq_some (addr : Address) (spf : Address → Bool) (skip : List Address)
    (l : List (Address × Nat)) (c : Address) :
    l.foldl (fun s e => (closerStep addr spf skip s e.1 e.2).1) none = some c ↔
      c ∈ l.map Prod.fst ∧ Eligible spf skip c ∧
        ∀ q ∈ l.map Prod.fst, Eligible spf skip q → q ≠ c → distance addr c < distance addr q := by
  obtain ⟨hn, hs⟩ := foldl_closer addr spf skip l none
  constructor
  · intro hc
    obtain ⟨hfrom, -, hall⟩ := hs c hc
    obtain ⟨e, he, rfl, hel, -⟩ := hfrom.resolve_left (by simp)
    refine ⟨List.mem_map_of_mem _ he, hel, fun q hq hel' hne => ?_⟩
    obtain ⟨e', he', rfl⟩ := List.mem_map.1 hq
    exact lt_of_le_of_ne (hall e' he' hel') fun hd => hne (distance_inj hd).symm
  · rintro ⟨hc, hel, hmin⟩
    obtain ⟨e, he, rfl⟩ := List.mem_map.1 hc
    obtain ⟨c', hc'⟩ := Option.ne_none_iff_exists'.1 fun h => (hn.1 h).2 _ he hel
    obtain ⟨hfrom, -, hall⟩ := hs c' hc'
    obtain ⟨e', he', rfl, hel', -⟩ := hfrom.resolve_left (by simp)
    rw [hc', Option.some_inj]
    by_contra hne
    exact absurd (hall _ he hel) (not_le.2 (hmin _ (List.mem_map_of_mem _ he') hel' hne))

theorem PSlice.mem_map_fst_entries {s : PSlice} {a : Address} : a ∈ s.entries.map Prod.fst ↔ a ∈ s := by
  simp only [List.mem_map, Prod.exists, exists_and_right, exists_eq_right, PSlice.mem_entries,
    PSlice.mem_peers]

/-- **What `closestPeer` answers, in any visiting order.** `topology.ErrNotFound` exactly
when no peer is eligible; otherwise the one eligible peer strictly closer to `addr` than
every other eligible peer. Any order of visiting the peers gives the same answer. -/
theorem closestPeer_unique (peers : PSlice) (addr : Address) (spf : Address → Bool)
    (skip : List Address) :
    (closestPeer peers addr spf skip = none ↔ ∀ p ∈ peers, ¬Eligible spf skip p) ∧
    (∀ c, closestPeer peers addr spf skip = some c ↔
      c ∈ peers ∧ Eligible spf skip c ∧
        ∀ q ∈ peers, Eligible spf skip q → q ≠ c → distance addr c < distance addr q) ∧
    ∀ l : List (Address × Nat), l.Perm peers.entries →
      l.foldl (fun s e => (closerStep addr spf skip s e.1 e.2).1) none =
        closestPeer peers addr spf skip := by
  refine ⟨closestPeer_eq_none, fun c => ?_, fun l hl => ?_⟩
  · rw [closestPeer_eq_foldl, foldl_closer_eq_some]
    simp only [PSlice.mem_map_fst_entries]
  · rw [closestPeer_eq_foldl]
    exact Option.ext fun c => by
      rw [Option.mem_def, Option.mem_def, foldl_closer_eq_some, foldl_closer_eq_some]
      simp only [(hl.map Prod.fst).mem_iff]

/-- Three peers in two bins, one of them skipped, visited in the reverse of
`EachBinRev`'s order. -/
theorem closestPeer_unique_reversed :
    let peers := (((PSlice.new 2).add (Address.ofHead 64) 1).add (Address.ofHead 128) 0).add
      (Address.ofHead 192) 0
    let l := peers.entries.reverse
    l ≠ peers.entries ∧ l.Perm peers.entries ∧
      l.foldl (fun s e =>
          (closerStep (Address.ofHead 200) (fun _ => false) [Address.ofHead 192] s e.1 e.2).1) none =
        closestPeer peers (Address.ofHead 200) (fun _ => false) [Address.ofHead 192] :=
  ⟨by decide, List.reverse_perm _, (closestPeer_unique _ _ _ _).2.2 _ (List.reverse_perm _)⟩

/-! ## `ClosestPeer` -/

/-- `ClosestPeer`'s closure moves its running closest as `closerStep` does from a
found peer, with the peers `p2p.Peers()` lacks as the sanctioned ones, and queues
those peers unless skipped. -/
theorem closestStep_fst (addr : Address) (skip p2pPeers : List Address)
    (acc : Address × List Address) (p : Address) (po : Nat) :
    some (Kad.closestStep addr skip p2pPeers acc p po).1.1 =
        (closerStep addr (fun q => !decide (q ∈ p2pPeers)) skip (some acc.1) p po).1 ∧
      (Kad.closestStep addr skip p2pPeers acc p po).1.2 =
        acc.2 ++ [p].filter (fun q => q ∉ skip ∧ q ∉ p2pPeers) := by
  unfold Kad.closestStep closerStep
  by_cases h₁ : p ∈ skip <;> by_cases h₂ : p ∈ p2pPeers <;> simp [h₁, h₂]
  split <;> rfl

theorem closestStep_snd (addr : Address) (skip p2pPeers : List Address)
    (acc : Address × List Address) (p : Address) (po : Nat) :
    (Kad.closestStep addr skip p2pPeers acc p po).2 = (false, false, none) := by
  unfold Kad.closestStep; split
  · rfl
  · split <;> rfl

theorem foldl_closestStep (addr : Address) (skip p2pPeers : List Address) :
    ∀ (l : List (Address × Nat)) (acc : Address × List Address),
      let r := l.foldl (fun s e => (Kad.closestStep addr skip p2pPeers s e.1 e.2).1) acc
      some r.1 = l.foldl (fun s e =>
          (closerStep addr (fun q => !decide (q ∈ p2pPeers)) skip s e.1 e.2).1) (some acc.1) ∧
        r.2 = acc.2 ++ (l.map Prod.fst).filter (fun q => q ∉ skip ∧ q ∉ p2pPeers)
  | [], acc => by simp
  | (p, po) :: rest, acc => by
    obtain ⟨h₁, h₂⟩ := closestStep_fst addr skip p2pPeers acc p po
    obtain ⟨ih₁, ih₂⟩ := foldl_closestStep addr skip p2pPeers rest
      (Kad.closestStep addr skip p2pPeers acc p po).1
    simp only [List.foldl_cons, List.map_cons]
    refine ⟨by rw [ih₁, h₁], ?_⟩
    rw [ih₂, h₂, List.append_assoc, ← List.filter_append, List.singleton_append]

section
variable (maxPO : Nat)

@[simp] theorem disconnectAll_base (now : Int) :
    ∀ (ps : List Address) (k : Kad), (k.disconnectAll maxPO now ps).1.base = k.base
  | [], _ => rfl
  | _ :: ps, _ => disconnectAll_base now ps _

@[simp] theorem disconnectAll_knownPeers (now : Int) :
    ∀ (ps : List Address) (k : Kad), (k.disconnectAll maxPO now ps).1.knownPeers = k.knownPeers
  | [], _ => rfl
  | _ :: ps, _ => disconnectAll_knownPeers now ps _

@[simp] theorem disconnectAll_bitSuffixLength (now : Int) :
    ∀ (ps : List Address) (k : Kad),
      (k.disconnectAll maxPO now ps).1.bitSuffixLength = k.bitSuffixLength
  | [], _ => rfl
  | _ :: ps, _ => disconnectAll_bitSuffixLength now ps _

@[simp] theorem disconnectAll_commonBinPrefixes (now : Int) :
    ∀ (ps : List Address) (k : Kad),
      (k.disconnectAll maxPO now ps).1.commonBinPrefixes = k.commonBinPrefixes
  | [], _ => rfl
  | _ :: ps, _ => disconnectAll_commonBinPrefixes now ps _

theorem disconnectAll_waitNext (now : Int) :
    ∀ (ps : List Address) (k : Kad) (q : Address),
      (k.disconnectAll maxPO now ps).1.waitNext q =
        if q ∈ ps then some ⟨now + timeToRetry, 0⟩ else k.waitNext q
  | [], _, _ => rfl
  | p :: ps, k, q => by
    simp only [Kad.disconnectAll, disconnectAll_waitNext now ps, Kad.disconnected,
      Function.update_apply, List.mem_cons]
    by_cases h₁ : q ∈ ps <;> by_cases h₂ : q = p <;> simp [h₁, h₂]

theorem disconnectAll_events (now : Int) :
    ∀ (ps : List Address) (k : Kad),
      (k.disconnectAll maxPO now ps).2 = ps.map (Event.disconnected · now)
  | [], _ => rfl
  | _ :: ps, _ => by
    simp only [Kad.disconnectAll, disconnectAll_events now ps]; rfl

/-- `Disconnected` on each of `ps` keeps the connected peers binned, leaves exactly
those not in `ps`, and keeps the cached depth current. -/
theorem disconnectAll_connected (now : Int) :
    ∀ (ps : List Address) {k : Kad},
      k.connectedPeers.Binned (proximity maxPO k.base) (maxPO + 1) →
      k.depth = recalcDepth k.connectedPeers →
      let k' := (k.disconnectAll maxPO now ps).1
      k'.connectedPeers.Binned (proximity maxPO k.base) (maxPO + 1) ∧
        (∀ q, q ∈ k'.connectedPeers ↔ q ∈ k.connectedPeers ∧ q ∉ ps) ∧
        k'.depth = recalcDepth k'.connectedPeers
  | [], _, hb, hd => ⟨hb, fun _ => by simp [Kad.disconnectAll], hd⟩
  | p :: ps, k, hb, _ => by
    obtain ⟨hb', hmem, hd'⟩ := disconnectAll_connected now ps (k := (k.disconnected maxPO p now).1)
      (hb.remove p _) (by dsimp only [Kad.disconnected])
    refine ⟨hb', fun q => ?_, hd'⟩
    simp only [Kad.disconnectAll] at hmem ⊢
    rw [hmem, Kad.disconnected, hb.mem_remove, List.mem_cons, not_or, and_assoc, and_comm (a := q ≠ p)]

theorem eligible_p2p_iff {p2pPeers skip : List Address} {p : Address} :
    Eligible (fun q => !decide (q ∈ p2pPeers)) skip p ↔ p ∉ skip ∧ p ∈ p2pPeers := by
  simp [Eligible]

/-- `ClosestPeer` on a non-empty connected slice: it disconnects the connected peers
neither skipped nor known to p2p, and answers the closest peer its walk found, or
`ErrWantSelf` when that is still the base address. -/
theorem closestPeerOf_eq (k : Kad) (addr : Address) (skip p2pPeers : List Address) (now : Int)
    (h : k.connectedPeers.length ≠ 0) :
    ∃ c, k.connectedPeers.entries.foldl (fun s e =>
        (closerStep addr (fun q => !decide (q ∈ p2pPeers)) skip s e.1 e.2).1) (some k.base) =
        some c ∧
      k.closestPeerOf maxPO addr skip p2pPeers now =
        (k.disconnectAll maxPO now (k.connectedPeers.peers.filter fun q => q ∉ skip ∧ q ∉ p2pPeers),
          if c = k.base then .error .wantSelf else .ok c) := by
  obtain ⟨h₁, h₂⟩ := foldl_closestStep addr skip p2pPeers k.connectedPeers.entries (k.base, [])
  refine ⟨_, h₁.symm, ?_⟩
  rw [Kad.closestPeerOf, if_neg h, PSlice.eachBinRev,
    iterate_of_continue (closestStep_snd addr skip p2pPeers)]
  simp only [h₂, List.nil_append, PSlice.map_fst_entries]
  split <;> rfl

/-- What `ClosestPeer` answers on a non-empty connected slice, with `E` the connected
peers neither skipped nor missing from `p2p.Peers()`: a closest peer of `E` when one
is strictly closer to `addr` than the base address, and `ErrWantSelf` otherwise. -/
theorem closestPeerOf_answer (k : Kad) (addr : Address) (skip p2pPeers : List Address) (now : Int)
    (h : k.connectedPeers.length ≠ 0) :
    let E := fun p => p ∈ k.connectedPeers ∧ p ∉ skip ∧ p ∈ p2pPeers
    let r := (k.closestPeerOf maxPO addr skip p2pPeers now).2
    ((∃ p, E p ∧ distance addr p < distance addr k.base) →
        ∃ c, r = .ok c ∧ E c ∧ ∀ p, E p → distance addr c ≤ distance addr p) ∧
      ((∀ p, E p → distance addr k.base ≤ distance addr p) → r = .error .wantSelf) := by
  obtain ⟨c, hc, heq⟩ := closestPeerOf_eq maxPO k addr skip p2pPeers now h
  obtain ⟨hfrom, hbase, hall⟩ := (foldl_closer addr _ skip _ _).2 c hc
  -- every peer of `E` was met by the walk, and every peer the walk met is connected
  have hmin : ∀ p, p ∈ k.connectedPeers ∧ p ∉ skip ∧ p ∈ p2pPeers →
      distance addr c ≤ distance addr p := fun p ⟨hp, hel⟩ => by
    obtain ⟨i, hi⟩ := PSlice.mem_peers.1 hp
    exact hall (p, i) (PSlice.mem_entries.2 hi) (eligible_p2p_iff.2 hel)
  have hfound : c ≠ k.base → (c ∈ k.connectedPeers ∧ c ∉ skip ∧ c ∈ p2pPeers) ∧
      distance addr c < distance addr k.base := fun hne => by
    obtain ⟨⟨p, i⟩, hp, rfl, hel, hlt⟩ := hfrom.resolve_left (by simpa using Ne.symm hne)
    exact ⟨⟨PSlice.mem_peers.2 ⟨i, PSlice.mem_entries.1 hp⟩, eligible_p2p_iff.1 hel⟩, hlt _ rfl⟩
  simp only [heq]
  refine ⟨fun ⟨p, hp, hlt⟩ => ?_, fun hge => ?_⟩
  · have hne : c ≠ k.base := fun he => by have := hmin p hp; rw [he] at this; omega
    exact ⟨c, by simp [hne], (hfound hne).1, hmin⟩
  · by_cases hne : c = k.base
    · simp [hne]
    · have ⟨hE, hlt⟩ := hfound hne
      exact absurd (hge c hE) (by omega)

end

end Voyager.Kademlia
