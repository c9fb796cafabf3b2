import Venachain.Eth.Peer

/-!
# The peer set

`peerSet` (unnamed/part_000, lines 557–746) holds, by id and under one lock,
the peers the eth protocol handler talks to. `Register` adds a peer and starts
its broadcast loops, `Unregister` removes one and closes its `term` channel,
which stops them, and `Close` disconnects every peer; "no new peers can be
registered after Close has returned". The queries range over the map, in an
order Go leaves unspecified.

## The model

* `PeerHandle` — what the set reads of a `*peer`: its id, `types`, the head
  number `Head()` returns, its known hashes, and the object it is (`ref`): two
  registrations of one object share one `term` channel.
* `PeerSet` — the map as the list of its peers, with distinct ids, a field of
  the structure, and the `closed` flag. A query over the map takes the
  iteration order as an argument: any permutation of that list.
* `Registry` — the set with the objects whose `term` is closed; `close` of a
  closed channel panics, so `Unregister` is `none` then.

The broadcast loops, the messages, `Disconnect` and `Peers()`, a copy of the
map, are left out.

## What is proved

* `register_unregister` — from any state, `Unregister(p.id)` after a
  successful `Register(p)` gives back the set it started from when `p`'s `term`
  was open, and panics when `p` is an object registered again after its
  `Unregister`: the set does not guard against that.
* `no_register_after_close` — after a `Close`, whatever calls follow, the set
  is closed, every `Register` on it fails with `errClosed`, and it holds no
  peer it did not hold at the `Close`.
* `unregister_never_panics` — from a new set, a run whose `Register` calls are
  all of different objects never closes a `term` channel twice.
* `bestPeer_max` — for every iteration order, `BestPeer` is nil exactly on an
  empty set, and otherwise a peer with the highest head number.

The other queries are filters of the iteration order and are modelled as such;
`PeersWithoutConsensus` filters on `consensusNodeMap`, which is never filled.
-/

namespace Venachain.Eth

/-- What the peer set reads of a `*peer`. -/
structure PeerHandle where
  /-- The object: its `term` channel is its own. -/
  ref : ℕ
  /-- `p.id`. -/
  id : String
  /-- `p.types`: 1 for a consensus node, 0 for an observer. -/
  types : ℤ
  /-- The number `p.Head()` returns. -/
  bn : ℤ
  /-- `knownTxs` and `knownBlocks`. -/
  known : Peer

/-- `p.IsConsensus()`. -/
def PeerHandle.isConsensus (p : PeerHandle) : Bool := p.types == 1

/-- The peer set's errors. -/
inductive SetError where
  /-- `errClosed`. -/
  | closed
  /-- `errAlreadyRegistered`. -/
  | alreadyRegistered
  /-- `errNotRegistered`. -/
  | notRegistered
  deriving DecidableEq, Repr

/-- The text each error is created with. -/
def SetError.message : SetError → String
  | .closed => "peer set is closed"
  | .alreadyRegistered => "peer is already registered"
  | .notRegistered => "peer is not registered"

/-- `peerSet`: the map `peers`, one peer per id, and `closed`. -/
@[ext]
structure PeerSet where
  /-- The peers of `ps.peers`. -/
  peers : List PeerHandle
  /-- A map holds one entry per key. -/
  nodup : (peers.map (·.id)).Nodup
  /-- `ps.closed`. -/
  closed : Bool

/-- `newPeerSet()`. -/
def newPeerSet : PeerSet := ⟨[], List.nodup_nil, false⟩

namespace PeerSet

theorem nodup_snoc {peers : List PeerHandle} (h : (peers.map (·.id)).Nodup) {p : PeerHandle}
    (hp : p.id ∉ peers.map (·.id)) : ((peers ++ [p]).map (·.id)).Nodup := by
  rw [List.map_append, List.map_singleton]
  exact h.append (List.nodup_singleton _) (List.disjoint_singleton.mpr hp)

theorem nodup_filter {peers : List PeerHandle} (h : (peers.map (·.id)).Nodup) (f : PeerHandle → Bool) :
    ((peers.filter f).map (·.id)).Nodup :=
  h.sublist ((List.filter_sublist _).map _)

variable (ps : PeerSet)

/-- `ps.peers[id]`. -/
def find (id : String) : Option PeerHandle := ps.peers.find? (·.id == id)

/-- `Register(p, removePeer)`, without the broadcast loops it starts. -/
def register (p : PeerHandle) : Except SetError PeerSet :=
  if ps.closed then .error .closed else
  if h : p.id ∈ ps.peers.map (·.id) then .error .alreadyRegistered else
  .ok ⟨ps.peers ++ [p], nodup_snoc ps.nodup h, ps.closed⟩

/-- `delete(ps.peers, id)`. -/
def delete (id : String) : PeerSet :=
  ⟨ps.peers.filter (·.id != id), nodup_filter ps.nodup _, ps.closed⟩

/-- `Close()`: every peer is disconnected, and the set closed. -/
def close : PeerSet := { ps with closed := true }

/-- `Len()`. -/
def len : ℕ := ps.peers.length

variable {ps}

theorem register_eq_ok {p : PeerHandle} {ps' : PeerSet} :
    ps.register p = .ok ps' ↔
      ps.closed = false ∧ p.id ∉ ps.peers.map (·.id) ∧ ps'.peers = ps.peers ++ [p] ∧ ps'.closed = ps.closed := by
  unfold register
  split_ifs with hc hp
  · simp [hc]
  · simp [hp]
  · simp only [Except.ok.injEq, hc, hp, not_false_eq_true, true_and, Bool.not_eq_true]
    exact ⟨fun h => h ▸ ⟨rfl, rfl⟩, fun h => PeerSet.ext h.1.symm h.2.symm⟩

theorem register_of_closed (hc : ps.closed = true) (p : PeerHandle) : ps.register p = .error .closed := by
  simp [register, hc]

theorem find_eq_some {id : String} {p : PeerHandle} (h : ps.find id = some p) : p ∈ ps.peers ∧ p.id = id :=
  ⟨List.mem_of_find?_eq_some h, by simpa using List.find?_some h⟩

end PeerSet

/-! ### The queries, over an iteration order -/

/-- `PeersWithoutTx(hash)`, ranging over the map in the order `order`. -/
def peersWithoutTx (order : List PeerHandle) (hash : ℕ) : List PeerHandle :=
  order.filter fun p => hash ∉ p.known.knownTxs

/-- `PeersWithoutBlock(hash)`, ranging over the map in the order `order`. -/
def peersWithoutBlock (order : List PeerHandle) (hash : ℕ) : List PeerHandle :=
  order.filter fun p => hash ∉ p.known.knownBlocks

/-- `ConsensusPeers()`. -/
def consensusPeers (order : List PeerHandle) : List PeerHandle :=
  order.filter (·.isConsensus)

/-- `ConsensusPeersWithoutTx(csPeers, hash)`: the handles of `csPeers`, in
their order, whose id is registered and whose own known set lacks the hash. -/
def consensusPeersWithoutTx (ps : PeerSet) (csPeers : List PeerHandle) (hash : ℕ) : List PeerHandle :=
  csPeers.filter fun p => (ps.find p.id).isSome && hash ∉ p.known.knownTxs

/-- `PeersWithoutConsensus(engine)`: the peers whose id is not in
`consensusNodeMap`, a map that is made empty and never filled. -/
def peersWithoutConsensus (order : List PeerHandle) : List PeerHandle :=
  let consensusNodeMap : List (String × String) := []
  order.filter fun p => (consensusNodeMap.lookup p.id).isNone

/-- One iteration of `BestPeer`'s loop: `p` replaces the best so far when
there is none, or when its number is higher. -/
def bestStep (best : Option PeerHandle) (p : PeerHandle) : Option PeerHandle :=
  match best with
  | none => some p
  | some b => if p.bn > b.bn then some p else some b

/-- `BestPeer()`, ranging over the map in the order `order`. -/
def bestPeer (order : List PeerHandle) : Option PeerHandle := order.foldl bestStep none

theorem foldl_bestStep (l : List PeerHandle) (b : PeerHandle) :
    ∃ p, l.foldl bestStep (some b) = some p ∧ p ∈ b :: l ∧ ∀ q ∈ b :: l, q.bn ≤ p.bn := by
  induction l generalizing b with
  | nil => exact ⟨b, rfl, List.mem_singleton_self b, by simp⟩
  | cons q l ih =>
    simp only [List.foldl_cons, bestStep]
    split_ifs with h
    · obtain ⟨p, hp, hmem, hall⟩ := ih q
      refine ⟨p, hp, List.mem_cons_of_mem _ hmem, ?_⟩
      have hq := hall q (List.mem_cons_self _ _)
      simp only [List.mem_cons, forall_eq_or_imp] at hall ⊢
      exact ⟨by omega, hall⟩
    · obtain ⟨p, hp, hmem, hall⟩ := ih b
      refine ⟨p, hp, ((List.sublist_cons_self q l).cons₂ b).subset hmem, ?_⟩
      have hb := hall b (List.mem_cons_self _ _)
      simp only [List.mem_cons, forall_eq_or_imp] at hall ⊢
      exact ⟨hall.1, by omega, hall.2⟩

/-- For every iteration order, `BestPeer` is nil exactly on an empty set, and
otherwise one of the peers with the highest number. -/
theorem bestPeer_max (ps : PeerSet) (order : List PeerHandle) (ho : order.Perm ps.peers) :
    (bestPeer order = none ↔ ps.peers = []) ∧
    ∀ p, bestPeer order = some p → p ∈ ps.peers ∧ ∀ q ∈ ps.peers, q.bn ≤ p.bn := by
  cases order with
  | nil => simp [bestPeer, List.nil_perm.mp ho]
  | cons b l =>
    obtain ⟨p, hp, hmem, hall⟩ := foldl_bestStep l b
    have hb : bestPeer (b :: l) = some p := hp
    refine ⟨⟨fun h => by simp [hb] at h, fun h => by simp [h] at ho⟩, fun p' hp' => ?_⟩
    obtain rfl := Option.some.inj (hb.symm.trans hp')
    exact ⟨ho.subset hmem, fun q hq => hall q (ho.symm.subset hq)⟩

/-- Two peers: `a`, a consensus node at 5, and `b`, an observer at 7. -/
def twoPeers : PeerSet :=
  ⟨[⟨1, "a", 1, 5, Peer.new⟩, ⟨2, "b", 0, 7, Peer.new⟩], by decide, false⟩

theorem twoPeers_swap : [⟨2, "b", 0, 7, Peer.new⟩, ⟨1, "a", 1, 5, Peer.new⟩].Perm twoPeers.peers :=
  List.Perm.swap _ _ _

/-- `BestPeer` over the two peers, `b` first. -/
theorem bestPeer_max_two :
    (bestPeer [⟨2, "b", 0, 7, Peer.new⟩, ⟨1, "a", 1, 5, Peer.new⟩] = none ↔ twoPeers.peers = []) ∧
    ∀ p, bestPeer [⟨2, "b", 0, 7, Peer.new⟩, ⟨1, "a", 1, 5, Peer.new⟩] = some p →
      p ∈ twoPeers.peers ∧ ∀ q ∈ twoPeers.peers, q.bn ≤ p.bn :=
  bestPeer_max twoPeers _ twoPeers_swap

/-! ### Registration over whole runs -/

/-- The calls that change the set. -/
inductive SetCall where
  /-- `Register(p, removePeer)`. -/
  | register (p : PeerHandle)
  /-- `Unregister(id)`. -/
  | unregister (id : String)
  /-- `Close()`. -/
  | close

/-- The objects a run's `Register` calls pass. -/
def SetCall.registered (cs : List SetCall) : List ℕ :=
  cs.filterMap fun | .register p => some p.ref | _ => none

theorem SetCall.registered_append (cs cs' : List SetCall) :
    registered (cs ++ cs') = registered cs ++ registered cs' := List.filterMap_append _ _ _

/-- The set, and the objects whose `term` channel is closed. -/
structure Registry where
  /-- The peer set. -/
  set : PeerSet
  /-- The objects `p.close()` has closed the `term` of. -/
  closedTerms : List ℕ

namespace Registry

/-- A new set; no channel closed. -/
def init : Registry := ⟨newPeerSet, []⟩

/-- `Unregister(id)`: the error, or the set without the peer, whose `term`
`p.close()` closes; `none` when it was closed already, a panic. -/
def unregister (r : Registry) (id : String) : Option (Except SetError Registry) :=
  match r.set.find id with
  | none => some (.error .notRegistered)
  | some p =>
    if p.ref ∈ r.closedTerms then none else some (.ok ⟨r.set.delete id, r.closedTerms ++ [p.ref]⟩)

/-- One call; an error leaves everything as it was, and `none` is a panic. -/
def step (r : Registry) : SetCall → Option Registry
  | .register p => some <| match r.set.register p with
    | .ok set => { r with set := set }
    | .error _ => r
  | .unregister id => (r.unregister id).map fun
    | .ok r' => r'
    | .error _ => r
  | .close => some { r with set := r.set.close }

/-- The registry after the calls, or `none` if one of them panics. -/
def run (r : Registry) (cs : List SetCall) : Option Registry := cs.foldlM step r

theorem run_append (r : Registry) (cs cs' : List SetCall) :
    r.run (cs ++ cs') = (r.run cs).bind (·.run cs') := List.foldlM_append _ _ _ _

/-- What one `Unregister` does. -/
theorem unregister_cases (r : Registry) (id : String) :
    r.unregister id = some (.error .notRegistered) ∧ r.set.find id = none ∨
    ∃ p, r.set.find id = some p ∧
      (p.ref ∈ r.closedTerms ∧ r.unregister id = none ∨
       p.ref ∉ r.closedTerms ∧ r.unregister id = some (.ok ⟨r.set.delete id, r.closedTerms ++ [p.ref]⟩)) := by
  unfold unregister
  cases hf : r.set.find id with
  | none => exact .inl ⟨rfl, rfl⟩
  | some p =>
    by_cases hp : p.ref ∈ r.closedTerms
    · exact .inr ⟨p, rfl, .inl ⟨hp, if_pos hp⟩⟩
    · exact .inr ⟨p, rfl, .inr ⟨hp, if_neg hp⟩⟩

end Registry

/-- `Unregister(p.id)` right after a successful `Register(p)`, from any state:
when no `Unregister` closed `p`'s `term` before, it gives back the set it
started from and closes the `term`; when one did, `p` being an object
registered again after its `Unregister`, it closes the `term` a second time
and panics. -/
theorem register_unregister (r : Registry) (p : PeerHandle) {set : PeerSet}
    (hr : r.set.register p = .ok set) :
    (p.ref ∉ r.closedTerms → ({ r with set := set } : Registry).unregister p.id =
      some (.ok ⟨r.set, r.closedTerms ++ [p.ref]⟩)) ∧
    (p.ref ∈ r.closedTerms → ({ r with set := set } : Registry).unregister p.id = none) := by
  obtain ⟨-, hid, hpeers, hclosed⟩ := PeerSet.register_eq_ok.mp hr
  have hother : ∀ q ∈ r.set.peers, q.id ≠ p.id := fun q hq he => hid (he ▸ List.mem_map_of_mem _ hq)
  have hf : set.find p.id = some p := by
    rw [PeerSet.find, hpeers, List.find?_append, List.find?_eq_none.mpr (by simpa using hother)]
    simp
  have hd : set.delete p.id = r.set := PeerSet.ext (by
    simp only [PeerSet.delete, hpeers, List.filter_append]
    rw [List.filter_eq_self.mpr (by simpa using hother)]
    simp) hclosed
  exact ⟨fun hp => by simp [Registry.unregister, hf, hp, hd], fun hp => by simp [Registry.unregister, hf, hp]⟩

/-- The peer `a`, a consensus node at 5. -/
def peerA : PeerHandle := ⟨1, "a", 1, 5, Peer.new⟩

/-- `a` registered in a new set and unregistered; then the same object
registered again, in the state those two calls leave, whose `Unregister`
panics. -/
theorem register_unregister_again :
    (∃ set, newPeerSet.register peerA = .ok set ∧
      (peerA.ref ∉ Registry.init.closedTerms → ({ Registry.init with set := set } : Registry).unregister
        peerA.id = some (.ok ⟨Registry.init.set, Registry.init.closedTerms ++ [peerA.ref]⟩)) ∧
      (peerA.ref ∈ Registry.init.closedTerms →
        ({ Registry.init with set := set } : Registry).unregister peerA.id = none)) ∧
    Registry.init.run [.register peerA, .unregister peerA.id] = some ⟨newPeerSet, [peerA.ref]⟩ ∧
    (∃ set, newPeerSet.register peerA = .ok set ∧
      (peerA.ref ∉ [peerA.ref] → ({ (⟨newPeerSet, [peerA.ref]⟩ : Registry) with set := set } : Registry).unregister
        peerA.id = some (.ok ⟨newPeerSet, [peerA.ref] ++ [peerA.ref]⟩)) ∧
      (peerA.ref ∈ [peerA.ref] →
        ({ (⟨newPeerSet, [peerA.ref]⟩ : Registry) with set := set } : Registry).unregister peerA.id = none)) :=
  ⟨⟨_, rfl, register_unregister Registry.init peerA rfl⟩, rfl,
    ⟨_, rfl, register_unregister ⟨newPeerSet, [peerA.ref]⟩ peerA rfl⟩⟩

namespace Registry

/-- A call on a closed set leaves it closed, and adds no peer. -/
theorem step_of_closed {r r' : Registry} (hc : r.set.closed = true) {c : SetCall} (h : r.step c = some r') :
    r'.set.closed = true ∧ r'.set.peers.Sublist r.set.peers := by
  cases c with
  | register p =>
    simp only [step, PeerSet.register_of_closed hc, Option.some.injEq] at h
    exact h ▸ ⟨hc, List.Sublist.refl _⟩
  | unregister id =>
    rcases unregister_cases r id with ⟨hu, -⟩ | ⟨p, -, ⟨-, hu⟩ | ⟨-, hu⟩⟩ <;>
      simp only [step, hu, Option.map_some', Option.map_none', Option.some.injEq, reduceCtorEq] at h
    · exact h ▸ ⟨hc, List.Sublist.refl _⟩
    · exact h ▸ ⟨hc, List.filter_sublist _⟩
  | close =>
    cases h
    exact ⟨rfl, List.Sublist.refl _⟩

/-- So does every run. -/
theorem run_of_closed {r r' : Registry} (hc : r.set.closed = true) {cs : List SetCall}
    (h : r.run cs = some r') : r'.set.closed = true ∧ r'.set.peers.Sublist r.set.peers := by
  induction cs generalizing r with
  | nil =>
    cases h
    exact ⟨hc, List.Sublist.refl _⟩
  | cons c cs ih =>
    obtain ⟨r₁, h₁, h₂⟩ := Option.bind_eq_some.mp h
    obtain ⟨hc₁, hs₁⟩ := step_of_closed hc h₁
    obtain ⟨hc₂, hs₂⟩ := ih hc₁ h₂
    exact ⟨hc₂, hs₂.trans hs₁⟩

end Registry

/-- After a `Close`, whatever calls follow, the set is closed, every
`Register` on it fails with `errClosed`, and it holds no peer it did not hold
when it was closed. -/
theorem no_register_after_close (r : Registry) (cs : List SetCall) {r' : Registry}
    (h : r.run (.close :: cs) = some r') :
    r'.set.closed = true ∧ (∀ p, r'.set.register p = .error .closed) ∧ r'.set.peers.Sublist r.set.peers := by
  obtain ⟨hc, hs⟩ := @Registry.run_of_closed { r with set := r.set.close } r' rfl cs h
  exact ⟨hc, PeerSet.register_of_closed hc, hs⟩

/-- A new set, closed, then asked to register a peer. -/
theorem no_register_after_close_new :
    ∃ r', Registry.init.run [.close, .register ⟨1, "a", 1, 5, Peer.new⟩] = some r' ∧
      r'.set.closed = true ∧ (∀ p, r'.set.register p = .error .closed) ∧
      r'.set.peers.Sublist Registry.init.set.peers :=
  ⟨_, rfl, no_register_after_close Registry.init [.register ⟨1, "a", 1, 5, Peer.new⟩] rfl⟩

/-- What a run keeps when its `Register` calls pass different objects: the
registered peers are different objects with open `term` channels, and every
closed `term` and every registered peer comes from a `Register` of the run. -/
structure Registry.Inv (cs : List SetCall) (r : Registry) : Prop where
  open_term : ∀ p ∈ r.set.peers, p.ref ∉ r.closedTerms
  refs_nodup : (r.set.peers.map (·.ref)).Nodup
  closed_registered : ∀ x ∈ r.closedTerms, x ∈ SetCall.registered cs
  peers_registered : ∀ p ∈ r.set.peers, p.ref ∈ SetCall.registered cs

namespace Registry.Inv

variable {cs : List SetCall} {r : Registry}

/-- A call adds no peer and closes no channel by being made: what the invariant
says of the set so far still holds after it. -/
theorem snoc (hr : r.Inv cs) (c : SetCall) : r.Inv (cs ++ [c]) := by
  have mono : ∀ x ∈ SetCall.registered cs, x ∈ SetCall.registered (cs ++ [c]) := fun x hx => by
    rw [SetCall.registered_append]
    exact List.mem_append_left _ hx
  exact ⟨hr.open_term, hr.refs_nodup, fun x hx => mono x (hr.closed_registered x hx),
    fun p hp => mono _ (hr.peers_registered p hp)⟩

/-- A successful `Register` of an object no earlier call passed keeps the
invariant. -/
theorem register (hr : r.Inv cs) {p : PeerHandle} {set : PeerSet} (h : r.set.register p = .ok set)
    (hfresh : p.ref ∉ SetCall.registered cs) :
    ({ r with set := set } : Registry).Inv (cs ++ [.register p]) := by
  have hr' := hr.snoc (.register p)
  obtain ⟨-, -, hpeers, -⟩ := PeerSet.register_eq_ok.mp h
  refine ⟨fun q hq => ?_, ?_, hr'.closed_registered, fun q hq => ?_⟩
  · rcases List.mem_append.mp (hpeers ▸ hq) with hq | hq
    · exact hr.open_term q hq
    · obtain rfl := List.mem_singleton.mp hq
      exact fun h => hfresh (hr.closed_registered _ h)
  · simp only [hpeers, List.map_append, List.map_singleton]
    refine hr.refs_nodup.append (List.nodup_singleton _) (List.disjoint_singleton.mpr fun hm => ?_)
    obtain ⟨q, hq, he⟩ := List.mem_map.mp hm
    exact hfresh (he ▸ hr.peers_registered q hq)
  · rcases List.mem_append.mp (hpeers ▸ hq) with hq | hq
    · exact hr'.peers_registered q hq
    · obtain rfl := List.mem_singleton.mp hq
      simp [SetCall.registered_append, SetCall.registered]

/-- An `Unregister` that deletes the peer `p` and closes its channel keeps the
invariant. -/
theorem unregister (hr : r.Inv cs) {id : String} {p : PeerHandle} (hf : r.set.find id = some p) :
    (⟨r.set.delete id, r.closedTerms ++ [p.ref]⟩ : Registry).Inv (cs ++ [.unregister id]) := by
  have hr' := hr.snoc (.unregister id)
  obtain ⟨hpm, hpid⟩ := PeerSet.find_eq_some hf
  refine ⟨fun q hq => ?_, hr.refs_nodup.sublist ((List.filter_sublist _).map _), fun x hx => ?_,
    fun q hq => hr'.peers_registered q (List.mem_filter.mp hq).1⟩
  · obtain ⟨hq, hne⟩ := List.mem_filter.mp hq
    simp only [List.mem_append, List.mem_singleton, not_or]
    refine ⟨hr.open_term q hq, fun he => ?_⟩
    obtain rfl := List.inj_on_of_nodup_map hr.refs_nodup hq hpm he
    simp [hpid] at hne
  · rcases List.mem_append.mp hx with hx | hx
    · exact hr'.closed_registered x hx
    · obtain rfl := List.mem_singleton.mp hx
      exact hr'.peers_registered p hpm

/-- One call, when a `Register` passes an object no earlier one did: no panic,
and the invariant kept. -/
theorem step (hr : r.Inv cs) (c : SetCall) (hc : ∀ p, c = .register p → p.ref ∉ SetCall.registered cs) :
    ∃ r', r.step c = some r' ∧ r'.Inv (cs ++ [c]) := by
  cases c with
  | register p =>
    cases h : r.set.register p with
    | error e => exact ⟨r, by simp [Registry.step, h], hr.snoc _⟩
    | ok set => exact ⟨_, by simp [Registry.step, h], hr.register h (hc p rfl)⟩
  | unregister id =>
    rcases Registry.unregister_cases r id with ⟨hu, -⟩ | ⟨p, hf, ⟨hp, -⟩ | ⟨-, hu⟩⟩
    · exact ⟨r, by simp [Registry.step, hu], hr.snoc _⟩
    · exact absurd hp (hr.open_term p (PeerSet.find_eq_some hf).1)
    · exact ⟨_, by simp [Registry.step, hu], hr.unregister hf⟩
  | close =>
    have hr' := hr.snoc .close
    exact ⟨_, rfl, hr'.open_term, hr'.refs_nodup, hr'.closed_registered, hr'.peers_registered⟩

end Registry.Inv

/-- From a new set, a run whose `Register` calls all pass different objects
never closes a `term` channel twice. -/
theorem unregister_never_panics (cs : List SetCall) (hcs : (SetCall.registered cs).Nodup) :
    ∃ r, Registry.init.run cs = some r := by
  suffices ∃ r, Registry.init.run cs = some r ∧ r.Inv cs from this.imp fun _ h => h.1
  induction cs using List.reverseRecOn with
  | nil => exact ⟨_, rfl, ⟨by simp [Registry.init, newPeerSet], by simp [Registry.init, newPeerSet],
      by simp [Registry.init], by simp [Registry.init, newPeerSet]⟩⟩
  | append_singleton cs c ih =>
    rw [SetCall.registered_append] at hcs
    obtain ⟨r, hr, hi⟩ := ih (hcs.sublist (List.sublist_append_left _ _))
    obtain ⟨r', h', hi'⟩ := hi.step c fun p hp => by
      subst hp
      exact (List.nodup_cons.mp (List.nodup_append_comm.mp hcs)).1
    exact ⟨r', by rw [Registry.run_append, hr]; simpa [Registry.run] using h', hi'⟩

/-- Two peers registered, one unregistered, a third registered, all three
unregistered. -/
theorem unregister_never_panics_three :
    (SetCall.registered [.register ⟨1, "a", 1, 5, Peer.new⟩, .register ⟨2, "b", 0, 7, Peer.new⟩,
      .unregister "a", .register ⟨3, "a", 1, 6, Peer.new⟩, .unregister "a", .unregister "b"]).Nodup ∧
    ∃ r, Registry.init.run [.register ⟨1, "a", 1, 5, Peer.new⟩, .register ⟨2, "b", 0, 7, Peer.new⟩,
      .unregister "a", .register ⟨3, "a", 1, 6, Peer.new⟩, .unregister "a", .unregister "b"] = some r :=
  ⟨by decide, unregister_never_panics _ (by decide)⟩

end Venachain.Eth
