/-
# Walking a delivery's peers

`qdr_delivery_first_peer_CT` and `qdr_delivery_next_peer_CT` walk a
delivery's peers with the cursor `next_peer_ref`, and the multicast loops
unlink peers in the middle of a walk, the one just returned among them. A walk
stands on the list of peers between what it has passed and what is left, the
cursor on the head of what is left (`Walking`): of the peers that stay linked,
those returned are passed and the others left, and none was returned twice. A
link adds at the end of the list, an unlink moves a cursor on the peer to the
next one, and a step of the walk passes the peer at the cursor; so the split is
kept by every call (`Walking.step`), and a walk that ends with no next peer has
returned each peer that stayed linked exactly once.
-/

import DispatchRouter.Delivery.Peers

namespace DispatchRouter.Delivery

open Math PeerLinks

variable {ι : Type} [DecidableEq ι]

/-- The peers a walk of `dlv` returns: the answers to its calls on `dlv`. -/
def walkAnswers (dlv : ι) : List (PeerCall ι) → List (Option ι) → List ι
  | call :: calls, answer :: answers =>
      (if call = .firstPeer dlv ∨ call = .nextPeer dlv then answer.toList else []) ++ walkAnswers dlv calls answers
  | _, _ => []

/-- Where a walk of `dlv` stands, for the peers `linked` that stay linked: the
peers of `dlv` are those passed, then those left with the cursor on the first;
a linked peer is left exactly when it has not been returned, and none was
returned twice. -/
structure Walking (links : PeerLinks ι) (dlv : ι) (returned : List ι) (linked : ι → Prop) : Prop where
  split : ∃ front rest, links.peersOf dlv = front ++ rest ∧ links.nextPeerRef dlv = rest.head? ∧
    ∀ peer, linked peer → (peer ∈ rest ↔ peer ∉ returned)
  member : ∀ peer, linked peer → peer ∈ links.peersOf dlv
  once : ∀ peer, linked peer → returned.count peer ≤ 1

/-- A walk depends only on the links of `dlv`. -/
theorem Walking.congr {links other : PeerLinks ι} {dlv : ι} {returned : List ι} {linked : ι → Prop}
    (walking : Walking links dlv returned linked) (samePeers : other.peersOf dlv = links.peersOf dlv)
    (sameCursor : other.nextPeerRef dlv = links.nextPeerRef dlv) : Walking other dlv returned linked where
  split := by
    rw [samePeers, sameCursor]
    exact walking.split
  member := by
    rw [samePeers]
    exact walking.member
  once := walking.once

section Step

variable {links : PeerLinks ι} {dlv : ι} {returned : List ι} {linked : ι → Prop}

/-- A link adds at the end of a list: a walk that has passed the end has
passed it too. -/
theorem Walking.afterLink (sound : links.Sound) (walking : Walking links dlv returned linked) {inDlv outDlv : ι}
    (other : inDlv ≠ outDlv) (fresh : links.peersOf outDlv = []) :
    Walking (links.linked inDlv outDlv) dlv returned linked := by
  have outAbsent : outDlv ∉ links.peersOf dlv := fun held => by
    simpa [fresh] using (sound.symm dlv outDlv).mp held
  obtain ⟨front, rest, split, cursor, left⟩ := walking.split
  refine ⟨?_, fun peer isLinked => (mem_peersOf_linked other fresh dlv peer).mpr
    (Or.inl (walking.member peer isLinked)), walking.once⟩
  have sameCursor : (links.linked inDlv outDlv).nextPeerRef dlv = rest.head? := cursor
  rw [peersOf_linked other]
  split_ifs with isOut isIn
  · -- the new delivery: it had no peers, so nothing is linked to it
    refine ⟨[inDlv], [], rfl, ?_, fun peer isLinked => absurd (walking.member peer isLinked) ?_⟩
    · rw [sameCursor]
      have : front ++ rest = [] := by rw [← split, isOut, fresh]
      simp [List.append_eq_nil_iff.mp this]
    · rw [isOut, fresh]; simp
  · subst isIn
    obtain ⟨front', rest', appended, sameHead, sameLeft⟩ := append_cursor front rest outDlv
    refine ⟨front', rest', by rw [split, appended], by rw [sameCursor, sameHead], fun peer isLinked => ?_⟩
    have notOut : peer ≠ outDlv := fun same => outAbsent (same ▸ walking.member peer isLinked)
    rw [sameLeft peer notOut]
    exact left peer isLinked
  · exact ⟨front, rest, split, sameCursor, left⟩

/-- An unlink takes a peer off the list, a cursor on it moving to the next
one. -/
theorem Walking.afterUnlink (sound : links.Sound) (walking : Walking links dlv returned linked) {unlinkedDlv peer : ι}
    (held : peer ∈ links.peersOf unlinkedDlv)
    (keeps : ∀ other, linked other → ¬ (unlinkedDlv = dlv ∧ peer = other) ∧ ¬ (unlinkedDlv = other ∧ peer = dlv)) :
    Walking (links.unlinked unlinkedDlv peer) dlv returned linked := by
  have apart : peer ≠ unlinkedDlv := fun same => sound.irrefl unlinkedDlv (same ▸ held)
  obtain ⟨front, rest, split, cursor, left⟩ := walking.split
  refine ⟨?_, fun other isLinked => ?_, walking.once⟩
  · -- the side of the unlink that is `dlv` drops the other side
    have dropped : ∀ gone, ((links.unlinked unlinkedDlv peer).peersOf dlv = (links.peersOf dlv).erase gone ∧
        (links.unlinked unlinkedDlv peer).nextPeerRef dlv =
          if links.nextPeerRef dlv = some gone then deqNext (links.peers dlv) gone else links.nextPeerRef dlv) →
        (∀ other, linked other → other ≠ gone) →
        ∃ front rest, (links.unlinked unlinkedDlv peer).peersOf dlv = front ++ rest ∧
          (links.unlinked unlinkedDlv peer).nextPeerRef dlv = rest.head? ∧
          ∀ other, linked other → (other ∈ rest ↔ other ∉ returned) := by
      intro gone after stays
      obtain ⟨peersAfter, cursorAfter⟩ := after
      have nodup : (front ++ rest).Nodup := split ▸ sound.nodup_peersOf dlv
      obtain ⟨front', rest', erased, head, sameLeft⟩ := erase_cursor nodup gone
      refine ⟨front', rest', by rw [peersAfter, split, erased], ?_, fun other isLinked => ?_⟩
      · rw [cursorAfter, ← head, cursor]
        split_ifs with atCursor
        · rw [sound.peers_of_cursor (cursor.trans atCursor), split]
        · rfl
      · rw [sameLeft other (stays other isLinked)]
        exact left other isLinked
    by_cases isFirst : dlv = unlinkedDlv
    · subst isFirst
      refine dropped peer ⟨by rw [peersOf_unlinked sound held, if_pos rfl], ?_⟩
        fun other isLinked same => (keeps other isLinked).1 ⟨rfl, same.symm⟩
      simp [PeerLinks.unlinked, apart.symm]
    by_cases isSecond : dlv = peer
    · subst isSecond
      refine dropped unlinkedDlv ⟨by rw [peersOf_unlinked sound held, if_neg isFirst, if_pos rfl], ?_⟩
        fun other isLinked same => (keeps other isLinked).2 ⟨same.symm, rfl⟩
      simp [PeerLinks.unlinked, isFirst]
    · refine ⟨front, rest, by rw [peersOf_unlinked sound held, if_neg isFirst, if_neg isSecond, split], ?_, left⟩
      simp [PeerLinks.unlinked, isFirst, isSecond, cursor]
  · rw [mem_peersOf_unlinked sound held]
    exact ⟨walking.member other isLinked, fun both => (keeps other isLinked).1 ⟨both.1.symm, both.2.symm⟩,
      fun both => (keeps other isLinked).2 ⟨both.2.symm, both.1.symm⟩⟩

/-- A walk of another delivery moves only its own cursor. -/
theorem Walking.moveCursor (walking : Walking links dlv returned linked) {other : ι} (apart : other ≠ dlv)
    (cursor : Option ι) :
    Walking { links with nextPeerRef := Function.update links.nextPeerRef other cursor } dlv returned linked :=
  walking.congr rfl (Function.update_of_ne (Ne.symm apart) _ _)

theorem firstPeer_state (links : PeerLinks ι) (dlv : ι) : ∃ cursor,
    (qdrDeliveryFirstPeerCT links dlv).2 = { links with nextPeerRef := Function.update links.nextPeerRef dlv cursor } := by
  -- where the cursor stays, it is updated to itself
  have unchanged : links = { links with nextPeerRef := Function.update links.nextPeerRef dlv (links.nextPeerRef dlv) } := by
    simp
  unfold qdrDeliveryFirstPeerCT
  split_ifs
  · exact ⟨_, unchanged⟩
  split
  · exact ⟨_, unchanged⟩
  split
  · exact ⟨_, rfl⟩
  · exact ⟨_, unchanged⟩

theorem nextPeer_state (links : PeerLinks ι) (dlv : ι) : ∃ cursor,
    (qdrDeliveryNextPeerCT links dlv).2 = { links with nextPeerRef := Function.update links.nextPeerRef dlv cursor } := by
  have unchanged : links = { links with nextPeerRef := Function.update links.nextPeerRef dlv (links.nextPeerRef dlv) } := by
    simp
  unfold qdrDeliveryNextPeerCT
  split
  · exact ⟨_, unchanged⟩
  split
  · exact ⟨_, rfl⟩
  · exact ⟨_, unchanged⟩

/-- The walk starts at the head of the peers, the cursor on the one after it. -/
theorem firstPeer_cons (sound : links.Sound) {first : ι} {rest : List ι} (peers : links.peersOf dlv = first :: rest) :
    qdrDeliveryFirstPeerCT links dlv =
      (some first, { links with nextPeerRef := Function.update links.nextPeerRef dlv rest.head? }) := by
  have count : qdrDeliveryPeerCountCT links dlv ≠ 0 := by simp [peerCount_eq, peers]
  unfold qdrDeliveryFirstPeerCT
  rw [if_neg count]
  rcases hasPeer : links.peer dlv with _ | sole
  · have listed : links.peers dlv = first :: rest := by simpa [peersOf, hasPeer] using peers
    simp [listed]
  · -- the one peer: nothing after it, and no cursor to move
    obtain ⟨rfl, rfl⟩ : sole = first ∧ [] = rest := by simpa [peersOf, hasPeer] using peers
    have noCursor := sound.cursor_of_nil (sound.single dlv (by simp [hasPeer]))
    simp [← noCursor]

/-- A step of the walk from a cursor on `next` returns it and moves the cursor
to the peer after it. -/
theorem nextPeer_cons (sound : links.Sound) {front rest : List ι} {next : ι}
    (peers : links.peersOf dlv = front ++ next :: rest) (atCursor : links.nextPeerRef dlv = some next) :
    qdrDeliveryNextPeerCT links dlv =
      (some next, { links with nextPeerRef := Function.update links.nextPeerRef dlv rest.head? }) := by
  have listed : links.peers dlv = front ++ next :: rest := (sound.peers_of_cursor atCursor).trans peers
  have hasNoPeer : links.peer dlv = none := by
    rcases hasPeer : links.peer dlv with _ | sole
    · rfl
    · have := sound.cursor dlv next atCursor
      rw [sound.single dlv (by simp [hasPeer])] at this
      simp at this
  have nodup : (front ++ next :: rest).Nodup := listed ▸ sound.nodup dlv
  have notPassed : next ∉ front := fun passed => (List.nodup_append.mp nodup).2.2 next passed next
    List.mem_cons_self rfl
  simp [qdrDeliveryNextPeerCT, hasNoPeer, atCursor, listed, deqNext_append_cons notPassed]

/-- With no cursor the walk has ended. -/
theorem nextPeer_of_cursor_none (noCursor : links.nextPeerRef dlv = none) :
    qdrDeliveryNextPeerCT links dlv = (none, links) := by
  unfold qdrDeliveryNextPeerCT
  split
  · rfl
  · rw [noCursor]

/-- A step of the walk passes the peer at the cursor. -/
theorem Walking.nextPeer (sound : links.Sound) (walking : Walking links dlv returned linked) :
    Walking (qdrDeliveryNextPeerCT links dlv).2 dlv (returned ++ (qdrDeliveryNextPeerCT links dlv).1.toList)
      linked := by
  rcases hasPeer : links.peer dlv with _ | sole
  · rcases atCursor : links.nextPeerRef dlv with _ | next
    · simpa [qdrDeliveryNextPeerCT, hasPeer, atCursor] using walking
    simp only [qdrDeliveryNextPeerCT, hasPeer, atCursor, Option.toList_some]
    obtain ⟨front, rest, split, cursor, left⟩ := walking.split
    obtain ⟨more, isCons⟩ : ∃ more, rest = next :: more := by
      cases rest with
      | nil => simp [atCursor] at cursor
      | cons head more =>
          simp only [List.head?_cons, atCursor, Option.some.injEq] at cursor
          exact ⟨more, by rw [cursor]⟩
    have nodup : (front ++ next :: more).Nodup := by
      rw [← isCons, ← split]
      exact sound.nodup_peersOf dlv
    have notPassed : next ∉ front := fun passed => (List.nodup_append.mp nodup).2.2 next passed next
      List.mem_cons_self rfl
    have notLater : next ∉ more := (List.nodup_cons.mp (List.nodup_append.mp nodup).2.1).1
    -- the peer at the cursor is passed
    refine ⟨⟨front ++ [next], more, ?_, ?_, fun peer isLinked => ?_⟩, walking.member, fun peer isLinked => ?_⟩
    · change links.peersOf dlv = _
      rw [split, isCons, List.append_assoc, List.singleton_append]
    · simp only [Function.update_self]
      rw [sound.peers_of_cursor atCursor, split, isCons, deqNext_append_cons notPassed]
    · have wasLeft := left peer isLinked
      rw [isCons, List.mem_cons] at wasLeft
      by_cases isNext : peer = next
      · subst isNext
        simp [notLater]
      · simp only [List.mem_append, List.mem_singleton, isNext, or_false]
        rw [← wasLeft]
        simp [isNext]
    · have wasLeft := left peer isLinked
      rw [List.count_append]
      by_cases isNext : peer = next
      · subst isNext
        have notReturned : peer ∉ returned := wasLeft.mp (by rw [isCons]; exact List.mem_cons_self)
        simp [List.count_eq_zero_of_not_mem notReturned]
      · simpa [List.count_singleton, Ne.symm isNext] using walking.once peer isLinked
  · simpa [qdrDeliveryNextPeerCT, hasPeer] using walking

end Step

/-- Every allowed call other than a new walk of `dlv`, unlinking no peer that
stays linked, keeps the walk. -/
theorem Walking.step {links : PeerLinks ι} (sound : links.Sound) {dlv : ι} {returned : List ι}
    {linked : ι → Prop} (walking : Walking links dlv returned linked) {call : PeerCall ι}
    (allowed : call.Allowed links) (notRestart : call ≠ .firstPeer dlv)
    (keeps : ∀ peer, linked peer → call ≠ .unlinkPeers dlv peer ∧ call ≠ .unlinkPeers peer dlv)
    {answer : Option ι} {next : PeerLinks ι} (stepped : peerStep links call = some (answer, next)) :
    Walking next dlv (returned ++ walkAnswers dlv [call] [answer]) linked := by
  cases call with
  | linkPeers inDlv outDlv =>
      rw [peerStep, linkPeers_eq sound allowed.2] at stepped
      simp only [Option.map_some, Option.some.injEq, Prod.mk.injEq] at stepped
      obtain ⟨-, rfl⟩ := stepped
      simpa [walkAnswers] using walking.afterLink sound allowed.1 allowed.2
  | unlinkPeers unlinkedDlv peer =>
      rw [peerStep, unlinkPeers_eq sound allowed] at stepped
      simp only [Option.map_some, Option.some.injEq, Prod.mk.injEq] at stepped
      obtain ⟨-, rfl⟩ := stepped
      have keepsPair : ∀ other, linked other →
          ¬ (unlinkedDlv = dlv ∧ peer = other) ∧ ¬ (unlinkedDlv = other ∧ peer = dlv) := by
        intro other isLinked
        refine ⟨?_, ?_⟩
        · rintro ⟨rfl, rfl⟩
          exact (keeps peer isLinked).1 rfl
        · rintro ⟨rfl, rfl⟩
          exact (keeps unlinkedDlv isLinked).2 rfl
      simpa [walkAnswers] using walking.afterUnlink sound allowed keepsPair
  | firstPeer other =>
      simp only [peerStep, Option.some.injEq] at stepped
      have apart : other ≠ dlv := fun same => notRestart (by rw [same])
      obtain ⟨cursor, moved⟩ := firstPeer_state links other
      have isNext : next = (qdrDeliveryFirstPeerCT links other).2 := by rw [stepped]
      rw [isNext, moved]
      simpa [walkAnswers, apart] using walking.moveCursor apart cursor
  | nextPeer other =>
      simp only [peerStep, Option.some.injEq] at stepped
      have isNext : next = (qdrDeliveryNextPeerCT links other).2 := by rw [stepped]
      by_cases same : other = dlv
      · subst same
        have isAnswer : answer = (qdrDeliveryNextPeerCT links other).1 := by rw [stepped]
        rw [isNext, isAnswer]
        simpa [walkAnswers] using walking.nextPeer sound
      · obtain ⟨cursor, moved⟩ := nextPeer_state links other
        rw [isNext, moved]
        simpa [walkAnswers, same] using walking.moveCursor same cursor

/-- A walk with no next peer has returned each peer that stayed linked,
exactly once. -/
theorem Walking.complete {links : PeerLinks ι} (sound : links.Sound) {dlv : ι} {returned : List ι}
    {linked : ι → Prop} (walking : Walking links dlv returned linked)
    (ended : (qdrDeliveryNextPeerCT links dlv).1 = none) (peer : ι) (isLinked : linked peer) :
    returned.count peer = 1 := by
  -- no next peer means no cursor: nothing is left
  have noCursor : links.nextPeerRef dlv = none := by
    rcases hasPeer : links.peer dlv with _ | sole
    · rcases atCursor : links.nextPeerRef dlv with _ | next
      · rfl
      · simp [qdrDeliveryNextPeerCT, hasPeer, atCursor] at ended
    · exact sound.cursor_of_nil (sound.single dlv (by simp [hasPeer]))
  obtain ⟨front, rest, -, cursor, left⟩ := walking.split
  have nothingLeft : rest = [] := by
    rw [noCursor, eq_comm, List.head?_eq_none_iff] at cursor
    exact cursor
  have wasReturned : peer ∈ returned := by
    by_contra notReturned
    have := (left peer isLinked).mpr notReturned
    simp [nothingLeft] at this
  have := walking.once peer isLinked
  have := List.count_pos_iff.mpr wasReturned
  omega

/-- Over a run of allowed calls that neither starts a new walk of `dlv` nor
unlinks a peer that stays linked, the walk is kept; by induction on the
run. -/
theorem Walking.run {dlv : ι} {linked : ι → Prop} :
    ∀ (calls : List (PeerCall ι)) {links : PeerLinks ι} {returned : List ι}, links.Sound →
      Walking links dlv returned linked → Mealy.AllowedRun peerStep PeerCall.Allowed links calls →
      .firstPeer dlv ∉ calls →
      (∀ peer, linked peer → ∀ call ∈ calls, call ≠ .unlinkPeers dlv peer ∧ call ≠ .unlinkPeers peer dlv) →
      ∃ answers final, Mealy.runPartial peerStep links calls = some (answers, final) ∧ final.Sound ∧
        Walking final dlv (returned ++ walkAnswers dlv calls answers) linked
  | [], links, returned, sound, walking, _, _, _ => ⟨[], links, rfl, sound, by simpa [walkAnswers] using walking⟩
  | call :: calls, links, returned, sound, walking, ⟨here, later⟩, notRestart, keeps => by
      obtain ⟨answer, next, stepped, nextSound⟩ := sound.step here
      have nextWalking := walking.step sound here (fun same => notRestart (same ▸ List.mem_cons_self))
        (fun peer isLinked => keeps peer isLinked call List.mem_cons_self) stepped
      obtain ⟨answers, final, ran, finalSound, finalWalking⟩ := Walking.run calls nextSound nextWalking
        (later answer next stepped) (fun restart => notRestart (List.mem_cons_of_mem _ restart))
        (fun peer isLinked other inCalls => keeps peer isLinked other (List.mem_cons_of_mem _ inCalls))
      refine ⟨answer :: answers, final, by simp [Mealy.runPartial, stepped, ran], finalSound, ?_⟩
      simpa [walkAnswers, List.append_assoc] using finalWalking

/-! ### The peer links -/

end DispatchRouter.Delivery
