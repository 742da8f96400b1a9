/-
# Exchange forwarding

`exchange_bindings.c`: an exchange keeps its bindings in a parse tree, the
payload of each pattern the list of bindings made with that key; a binding
names a next hop, which several bindings may share. `qdr_forward_exchange_CT`
searches the tree with the message's subject, and `gather_next_hops` puts the
next hop of each binding of each pattern found at the end of the transmit
list, unless the next hop's flag `on_xmit_list` says it is there already. The
forwarder then takes the next hops off the list in turn, clears each flag and
sends the message to each.

The search may give a pattern more than once; the flags make every next hop
come once, and the forwarder leaves every flag clear. `send_message` is
recorded as the list of next hops the message goes to.
-/

import DispatchRouter.ParseTree.Machine

namespace DispatchRouter.Router

open Math ParseTree Hash

variable {ι ν : Type} [DecidableEq ι]

/-- What `gather_next_hops` works on: the transmit list and the flags
`on_xmit_list` of the exchange's next hops. -/
structure Gathered (ι : Type) where
  transmitList : List ι
  onXmitList : ι → Bool

/-- One round of the loop of `gather_next_hops`: the next hop of a binding goes
at the end of the list, and its flag is set, unless its flag is set already. -/
def gatherBinding (gathered : Gathered ι) (nextHop : ι) : Gathered ι :=
  if gathered.onXmitList nextHop then gathered
  else ⟨gathered.transmitList ++ [nextHop], Function.update gathered.onXmitList nextHop true⟩

/-- `gather_next_hops`, the callback of the search: `bindings` gives the next
hops of the bindings in the list a payload points to. It never stops the
search. -/
def gatherNextHops (bindings : ν → List ι) (gathered : Gathered ι) (_pattern : List UInt8) (payload : Option ν) :
    Bool × Gathered ι :=
  (true, ((payload.map bindings).getD []).foldl gatherBinding gathered)

/-- The loop of `qdr_forward_exchange_CT` over the transmit list: each next hop
is taken off, its flag cleared and the message sent to it. The next hops sent
to, in order, and the flags after. -/
def forwardLoop : List ι → (ι → Bool) → List ι × (ι → Bool)
  | [], onXmitList => ([], onXmitList)
  | nextHop :: rest, onXmitList =>
      let (sent, onXmitList) := forwardLoop rest (Function.update onXmitList nextHop false)
      (nextHop :: sent, onXmitList)

/-- `qdr_forward_exchange_CT`: a message with a subject has the next hops of
the bindings whose key matches it gathered, and is sent to them. The next hops
sent to and the flags after. -/
def qdrForwardExchangeCT (tree : QdParseTree ν) (bindings : ν → List ι) (onXmitList : ι → Bool)
    (subject : Option (List UInt8)) : Option (List ι × (ι → Bool)) :=
  let gathered :=
    match subject with
    | some subject => qdParseTreeSearch tree (gatherNextHops bindings) subject ⟨[], onXmitList⟩
    | none => some ⟨[], onXmitList⟩
  gathered.map fun gathered => forwardLoop gathered.transmitList gathered.onXmitList

/-! ### The flags mirror the transmit list -/

/-- The flags say which next hops are on the transmit list, which holds each
once. -/
structure Gathered.Mirrors (gathered : Gathered ι) : Prop where
  nodup : gathered.transmitList.Nodup
  onXmitList_iff : ∀ nextHop, gathered.onXmitList nextHop = true ↔ nextHop ∈ gathered.transmitList

omit [DecidableEq ι] in
theorem mirrors_empty {onXmitList : ι → Bool} (allClear : ∀ nextHop, onXmitList nextHop = false) :
    Gathered.Mirrors ⟨[], onXmitList⟩ :=
  ⟨List.nodup_nil, fun nextHop => by simp [allClear nextHop]⟩

section Mirrors

variable {gathered : Gathered ι}

/-- A binding adds its next hop to the list when it is not there. -/
theorem mem_gatherBinding (mirrors : gathered.Mirrors) (nextHop other : ι) :
    other ∈ (gatherBinding gathered nextHop).transmitList ↔ other ∈ gathered.transmitList ∨ other = nextHop := by
  unfold gatherBinding
  split_ifs with onList
  · have present := (mirrors.onXmitList_iff nextHop).mp onList
    constructor
    · exact Or.inl
    · rintro (present' | rfl)
      · exact present'
      · exact present
  · simp

theorem Gathered.Mirrors.gatherBinding (mirrors : gathered.Mirrors) (nextHop : ι) :
    (Router.gatherBinding gathered nextHop).Mirrors := by
  unfold Router.gatherBinding
  split_ifs with onList
  · exact mirrors
  · have absent : nextHop ∉ gathered.transmitList := fun present => onList ((mirrors.onXmitList_iff nextHop).mpr present)
    refine ⟨List.nodup_append.mpr ⟨mirrors.nodup, List.nodup_singleton nextHop, ?_⟩, fun other => ?_⟩
    · intro other inList hop inSingle same
      rw [List.mem_singleton.mp inSingle] at same
      exact absent (same ▸ inList)
    · by_cases isHop : other = nextHop
      · simp [isHop]
      · simp [mirrors.onXmitList_iff other, isHop]

/-- The loop over a pattern's bindings adds the next hops not on the list. -/
theorem foldl_gatherBinding (hops : List ι) :
    ∀ {gathered : Gathered ι}, gathered.Mirrors →
      (hops.foldl Router.gatherBinding gathered).Mirrors ∧
        ∀ other, other ∈ (hops.foldl Router.gatherBinding gathered).transmitList ↔
          other ∈ gathered.transmitList ∨ other ∈ hops := by
  induction hops with
  | nil => exact fun mirrors => ⟨mirrors, fun other => by simp⟩
  | cons nextHop hops ih =>
      intro gathered mirrors
      obtain ⟨mirrorsAfter, members⟩ := ih (mirrors.gatherBinding nextHop)
      refine ⟨mirrorsAfter, fun other => ?_⟩
      rw [List.foldl_cons, members, mem_gatherBinding mirrors, List.mem_cons]
      tauto

end Mirrors

/-- The callback over the patterns the search gives: the next hops of their
bindings, each once. The induction is on the patterns given. -/
theorem foldl_gatherNextHops (bindings : ν → List ι) (items : List (List UInt8 × Option ν)) :
    ∀ {gathered : Gathered ι}, gathered.Mirrors →
      let after := items.foldl (fun gathered item => (gatherNextHops bindings gathered item.1 item.2).2) gathered
      after.Mirrors ∧ ∀ other, other ∈ after.transmitList ↔
        other ∈ gathered.transmitList ∨ ∃ item ∈ items, other ∈ (item.2.map bindings).getD [] := by
  induction items with
  | nil => exact fun mirrors => ⟨mirrors, fun other => by simp⟩
  | cons item items ih =>
      intro gathered mirrors
      obtain ⟨mirrorsOne, membersOne⟩ := foldl_gatherBinding ((item.2.map bindings).getD []) mirrors
      obtain ⟨mirrorsAfter, members⟩ := ih mirrorsOne
      refine ⟨mirrorsAfter, fun other => ?_⟩
      simp only [List.foldl_cons, gatherNextHops] at members ⊢
      rw [members, membersOne, List.exists_mem_cons_iff]
      tauto

/-- The forwarder sends to the transmit list in order and clears the flags of
the next hops on it. -/
theorem forwardLoop_eq (transmitList : List ι) :
    ∀ onXmitList : ι → Bool, forwardLoop transmitList onXmitList =
      (transmitList, fun nextHop => if nextHop ∈ transmitList then false else onXmitList nextHop) := by
  induction transmitList with
  | nil => exact fun onXmitList => by simp [forwardLoop]
  | cons first rest ih =>
      intro onXmitList
      simp only [forwardLoop, ih, Prod.mk.injEq, true_and]
      funext nextHop
      by_cases isFirst : nextHop = first
      · simp [isFirst]
      · simp [isFirst]

/-! ### Forwarding -/

variable {tree : QdParseTree ν} {entries : Stored ν} {shape : Shape}

/-- With every flag clear, `qdr_forward_exchange_CT` gathers a transmit list
that holds, once each, exactly the next hops of the bindings whose key matches
the subject, sends the message to them, and leaves every flag clear again. -/
theorem qdrForwardExchangeCT_spec (layout : Layout tree entries shape [])
    (apart : ∀ key ∈ AssocList.keys entries, Glob.ManyApart key) (bindings : ν → List ι) (onXmitList : ι → Bool)
    (allClear : ∀ nextHop, onXmitList nextHop = false) (subject : List UInt8) :
    ∃ transmitList : List ι,
      qdParseTreeSearch tree (gatherNextHops bindings) subject ⟨[], onXmitList⟩ =
        some ⟨transmitList, fun nextHop => decide (nextHop ∈ transmitList)⟩ ∧
      transmitList.Nodup ∧
      (∀ nextHop, nextHop ∈ transmitList ↔ ∃ key pattern payload,
        AssocList.lookup entries key = some (pattern, some payload) ∧ nextHop ∈ bindings payload ∧
        Glob.accepts key (tokenIteratorInit tree.type (qdIteratorCopy subject).octets) = true) ∧
      qdrForwardExchangeCT tree bindings onXmitList (some subject) = some (transmitList, fun _ => false) := by
  obtain ⟨items, members, searches⟩ := layout.qdParseTreeSearch_spec (σ := Gathered ι) apart subject
  -- the callback never stops, so the search folds it over the patterns it gives
  have folded := searches (gatherNextHops bindings) ⟨[], onXmitList⟩
  rw [Traversal.visitAll_of_continue (fun _ _ => rfl)] at folded
  obtain ⟨mirrors, gatheredMembers⟩ := foldl_gatherNextHops bindings items (mirrors_empty allClear)
  set after := items.foldl (fun gathered item => (gatherNextHops bindings gathered item.1 item.2).2)
    (⟨[], onXmitList⟩ : Gathered ι)
  have flags : after.onXmitList = fun nextHop => decide (nextHop ∈ after.transmitList) := by
    funext nextHop
    rw [Bool.eq_iff_iff, mirrors.onXmitList_iff, decide_eq_true_iff]
  refine ⟨after.transmitList, by rw [folded, ← flags], mirrors.nodup, fun nextHop => ?_, ?_⟩
  · rw [gatheredMembers]
    simp only [List.not_mem_nil, false_or]
    constructor
    · rintro ⟨⟨pattern, payload⟩, inItems, onHops⟩
      obtain ⟨key, stored, accepts⟩ := (members _).mp inItems
      cases payload with
      | none => cases onHops
      | some payload => exact ⟨key, pattern, payload, stored, onHops, accepts⟩
    · rintro ⟨key, pattern, payload, stored, onHops, accepts⟩
      exact ⟨(pattern, some payload), (members _).mpr ⟨key, stored, accepts⟩, onHops⟩
  · simp only [qdrForwardExchangeCT, folded, Option.map_some, forwardLoop_eq, flags]
    congr 2
    funext nextHop
    by_cases onList : nextHop ∈ after.transmitList <;> simp [onList]

theorem exchange_sends_once_per_next_hop (layout : Layout tree entries shape [])
    (apart : ∀ key ∈ AssocList.keys entries, Glob.ManyApart key) (bindings : ν → List ι) (onXmitList : ι → Bool)
    (allClear : ∀ nextHop, onXmitList nextHop = false) (subject : List UInt8) :
    ∃ transmitList : List ι,
      qdParseTreeSearch tree (gatherNextHops bindings) subject ⟨[], onXmitList⟩ =
        some ⟨transmitList, fun nextHop => decide (nextHop ∈ transmitList)⟩ ∧
      transmitList.Nodup ∧
      (∀ nextHop, nextHop ∈ transmitList ↔ ∃ key pattern payload,
        AssocList.lookup entries key = some (pattern, some payload) ∧ nextHop ∈ bindings payload ∧
        Glob.accepts key (tokenIteratorInit tree.type (qdIteratorCopy subject).octets) = true) ∧
      qdrForwardExchangeCT tree bindings onXmitList (some subject) = some (transmitList, fun _ => false) :=
  qdrForwardExchangeCT_spec layout apart bindings onXmitList allClear subject

/-- An exchange with the keys `a.#`, whose bindings go to next hops 7 and 8,
and `#.b`, whose binding goes to 8, and a message with the subject `a.b`. -/
theorem exchange_sends_once_per_next_hop_ab :
    ∃ (tree : QdParseTree Nat) (entries : Stored Nat) (shape : Shape),
      (Mealy.runPartial QdParseTree.apply (qdParseTreeNew .amqp010)
          [.add [97, 46, 35] (some 0), .add [35, 46, 98] (some 1)]).map (·.2) = some tree ∧
      entries = [([.lit [97], .many], ([97, 46, 35], some 0)), ([.many, .lit [98]], ([35, 46, 98], some 1))] ∧
      Layout tree entries shape [] ∧ (∀ key ∈ AssocList.keys entries, Glob.ManyApart key) ∧
      (∀ nextHop : Nat, (fun _ => false) nextHop = false) ∧
      ∃ transmitList : List Nat,
        qdParseTreeSearch tree (gatherNextHops fun list => if list = 0 then [7, 8] else [8]) [97, 46, 98]
            ⟨[], fun _ => false⟩ =
          some ⟨transmitList, fun nextHop => decide (nextHop ∈ transmitList)⟩ ∧
        transmitList.Nodup ∧
        (∀ nextHop, nextHop ∈ transmitList ↔ ∃ key pattern payload,
          AssocList.lookup entries key = some (pattern, some payload) ∧
          nextHop ∈ (if payload = 0 then [7, 8] else [8]) ∧
          Glob.accepts key (tokenIteratorInit tree.type (qdIteratorCopy [97, 46, 98]).octets) = true) ∧
        qdrForwardExchangeCT tree (fun list => if list = 0 then [7, 8] else [8]) (fun _ => false)
            (some [97, 46, 98]) = some (transmitList, fun _ => false) := by
  obtain ⟨tree, ran, -, -, shape, holds⟩ := run_refines .amqp010
    [.add [97, 46, 35] (some 0), .add [35, 46, 98] (some 1)] (by decide)
  have entriesAre : (Mealy.run (Stored.apply .amqp010) [] [.add [97, 46, 35] (some 0), .add [35, 46, 98] (some 1)]).2 =
      [([.lit [97], .many], ([97, 46, 35], some 0)), ([.many, .lit [98]], ([35, 46, 98], some 1))] := by decide
  have apart : ∀ key ∈ AssocList.keys (Mealy.run (Stored.apply .amqp010) []
      [.add [97, 46, 35] (some 0), .add [35, 46, 98] (some 1)]).2, Glob.ManyApart key := by
    rw [entriesAre]
    decide
  exact ⟨tree, _, shape, by rw [ran]; rfl, entriesAre, holds.layout, apart, fun _ => rfl,
    exchange_sends_once_per_next_hop holds.layout apart (fun list => if list = 0 then [7, 8] else [8])
      (fun _ => false) (fun _ => rfl) [97, 46, 98]⟩

/-- Over every run of adds, removes and gets on a new exchange tree of a type
other than MQTT whose costs fit the counter, the exchange sends a message to
each next hop of the matching bindings once. The layout is the run's
(`run_refines`), and the stored keys are normal forms. -/
theorem exchange_sends_once_over_runs {type : ParseTreeType} (notMqtt : type ≠ .mqtt) (ops : List (Op ν))
    (budget : 2 + (ops.map (Op.cost type)).sum < 2 ^ 32) (bindings : ν → List ι) (onXmitList : ι → Bool)
    (allClear : ∀ nextHop, onXmitList nextHop = false) (subject : List UInt8) :
    ∃ tree, (Mealy.runPartial QdParseTree.apply (qdParseTreeNew type) ops).map (·.2) = some tree ∧
      ∃ transmitList : List ι,
        qdParseTreeSearch tree (gatherNextHops bindings) subject ⟨[], onXmitList⟩ =
          some ⟨transmitList, fun nextHop => decide (nextHop ∈ transmitList)⟩ ∧
        transmitList.Nodup ∧
        (∀ nextHop, nextHop ∈ transmitList ↔ ∃ key pattern payload,
          AssocList.lookup (Mealy.run (Stored.apply type) [] ops).2 key = some (pattern, some payload) ∧
          nextHop ∈ bindings payload ∧ Glob.accepts key (tokenIteratorInit type (qdIteratorCopy subject).octets) = true) ∧
        qdrForwardExchangeCT tree bindings onXmitList (some subject) = some (transmitList, fun _ => false) := by
  obtain ⟨tree, ran, isType, -, shape, holds⟩ := run_refines type ops budget
  refine ⟨tree, by rw [ran]; rfl, ?_⟩
  subst isType
  exact qdrForwardExchangeCT_spec holds.layout (manyApart_run notMqtt ops) bindings onXmitList allClear subject

/-- Bindings with the keys `a.#` and `#.b` made on a new AMQP 0-10 exchange
tree, and a message with any subject. -/
theorem exchange_sends_once_over_runs_ab :
    ParseTreeType.amqp010 ≠ .mqtt ∧
      2 + (([.add [97, 46, 35] (some 0), .add [35, 46, 98] (some 1)] : List (Op Nat)).map
        (Op.cost .amqp010)).sum < 2 ^ 32 ∧ (∀ nextHop : Nat, (fun _ => false) nextHop = false) ∧
      ∀ subject, ∃ tree, (Mealy.runPartial QdParseTree.apply (qdParseTreeNew .amqp010)
          [.add [97, 46, 35] (some 0), .add [35, 46, 98] (some 1)]).map (·.2) = some tree ∧
        ∃ transmitList : List Nat,
          qdParseTreeSearch tree (gatherNextHops fun list => if list = 0 then [7, 8] else [8]) subject
              ⟨[], fun _ => false⟩ =
            some ⟨transmitList, fun nextHop => decide (nextHop ∈ transmitList)⟩ ∧
          transmitList.Nodup ∧
          (∀ nextHop, nextHop ∈ transmitList ↔ ∃ key pattern payload,
            AssocList.lookup (Mealy.run (Stored.apply .amqp010) []
              [.add [97, 46, 35] (some 0), .add [35, 46, 98] (some 1)]).2 key = some (pattern, some payload) ∧
            nextHop ∈ (if payload = 0 then [7, 8] else [8]) ∧
            Glob.accepts key (tokenIteratorInit .amqp010 (qdIteratorCopy subject).octets) = true) ∧
          qdrForwardExchangeCT tree (fun list => if list = 0 then [7, 8] else [8]) (fun _ => false) (some subject) =
            some (transmitList, fun _ => false) :=
  ⟨by decide, by decide, fun _ => rfl, fun subject =>
    exchange_sends_once_over_runs (by decide) _ (by decide) (fun list => if list = 0 then [7, 8] else [8])
      (fun _ => false) (fun _ => rfl) subject⟩

end DispatchRouter.Router
