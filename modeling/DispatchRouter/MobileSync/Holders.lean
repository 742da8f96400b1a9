/-
# Which addresses hold a router's bit

Everything mobile sync promises is about one set per mask bit: the keys of the
addresses whose `rnodes` hold it (`Core.holders`). With the keys of
`core->addrs` distinct, each address operation moves that set in one way:
writing an address back puts its key in or takes it out, a new address holds
no bit, and `qdr_check_addr_CT` removes only an address that holds none when no
address has a fallback (`Core.checkAddr_cases`). The lemmas here say so, one per
operation, with what each does to the hash lookup and the list of keys.
-/

import DispatchRouter.MobileSync.Core

namespace DispatchRouter.MobileSync

/-- An address that nothing refers to holds no bit. -/
theorem Address.rnodes_eq_empty_of_unreferenced {a : Address} (unreferenced : a.unreferenced = true) :
    a.rnodes = ∅ := by
  simp only [Address.unreferenced, Bool.and_eq_true, beq_iff_eq] at unreferenced
  exact unreferenced.1.1.1.1.2

/-- An address that nothing refers to is no address's fallback. -/
theorem Address.fallbackFor_eq_none_of_unreferenced {a : Address} (unreferenced : a.unreferenced = true) :
    a.fallbackFor = none := by
  simp only [Address.unreferenced, Bool.and_eq_true, Option.isNone_iff_eq_none] at unreferenced
  exact unreferenced.2

namespace Core

/-- The keys of `core->addrs`, in order. -/
def keys (core : Core) : List (List Char) :=
  core.addrs.map (·.key)

/-- The keys of the addresses whose `rnodes` hold `bit`. -/
def holders (core : Core) (bit : Nat) : Finset (List Char) :=
  ((core.addrs.filter fun a => bit ∈ a.rnodes).map (·.key)).toFinset

/-- No address has a fallback address: nothing the modelled functions do sets one. -/
def NoFallback (core : Core) : Prop :=
  ∀ a ∈ core.addrs, a.fallback = none

variable {core : Core} {a : Address} {key : List Char} {bit : Nat}

theorem mem_holders : key ∈ core.holders bit ↔ ∃ a ∈ core.addrs, a.key = key ∧ bit ∈ a.rnodes := by
  simp only [holders, List.mem_toFinset, List.mem_map, List.mem_filter, decide_eq_true_eq]
  constructor
  · rintro ⟨a, ⟨stored, holds⟩, rfl⟩
    exact ⟨a, stored, rfl, holds⟩
  · rintro ⟨a, stored, rfl, holds⟩
    exact ⟨a, ⟨stored, holds⟩, rfl⟩

theorem mem_keys : key ∈ core.keys ↔ ∃ a ∈ core.addrs, a.key = key := by
  simp [keys]

theorem mem_keys_of_mem_holders (holds : key ∈ core.holders bit) : key ∈ core.keys := by
  obtain ⟨a, stored, rfl, -⟩ := mem_holders.mp holds
  exact mem_keys.mpr ⟨a, stored, rfl⟩

/-! ### The hash lookup -/

theorem mem_of_addr? (found : core.addr? key = some a) : a ∈ core.addrs ∧ a.key = key :=
  ⟨List.mem_of_find?_eq_some found, by simpa using List.find?_some found⟩

theorem addr?_eq_none_iff : core.addr? key = none ↔ key ∉ core.keys := by
  simp [addr?, keys, List.find?_eq_none]

/-- With distinct keys, the hash lookup finds exactly the address of its key. -/
theorem addr?_eq_some_iff (nodup : core.keys.Nodup) : core.addr? key = some a ↔ a ∈ core.addrs ∧ a.key = key := by
  constructor
  · exact mem_of_addr?
  · rintro ⟨stored, rfl⟩
    obtain ⟨found, hit⟩ : ∃ found, core.addr? a.key = some found := by
      cases hit : core.addr? a.key with
      | some found => exact ⟨found, rfl⟩
      | none => exact absurd (mem_keys.mpr ⟨a, stored, rfl⟩) (addr?_eq_none_iff.mp hit)
    obtain ⟨foundStored, sameKey⟩ := mem_of_addr? hit
    rw [hit, List.inj_on_of_nodup_map nodup foundStored stored sameKey]

theorem addr?_isSome_iff : (core.addr? key).isSome ↔ key ∈ core.keys := by
  rw [← not_iff_not, Option.not_isSome_iff_eq_none, addr?_eq_none_iff]

/-- A bit's holders read through the hash lookup. -/
theorem mem_holders_iff (nodup : core.keys.Nodup) :
    key ∈ core.holders bit ↔ ∃ a, core.addr? key = some a ∧ bit ∈ a.rnodes := by
  rw [mem_holders]
  constructor
  · rintro ⟨a, stored, rfl, holds⟩
    exact ⟨a, (addr?_eq_some_iff nodup).mpr ⟨stored, rfl⟩, holds⟩
  · rintro ⟨a, found, holds⟩
    obtain ⟨stored, rfl⟩ := mem_of_addr? found
    exact ⟨a, stored, rfl, holds⟩

/-! ### Writing an address back -/

@[simp]
theorem routers_setAddr : (core.setAddr a).routers = core.routers := rfl

@[simp]
theorem configTreatment_setAddr : (core.setAddr a).configTreatment = core.configTreatment := rfl

@[simp]
theorem defaultTreatment_setAddr : (core.setAddr a).defaultTreatment = core.defaultTreatment := rfl

@[simp]
theorem keys_setAddr : (core.setAddr a).keys = core.keys := by
  simp only [keys, setAddr, List.map_map]
  congr 1
  funext b
  by_cases same : b.key = a.key <;> simp [same]

theorem mem_setAddr {b : Address} (there : a.key ∈ core.keys) :
    b ∈ (core.setAddr a).addrs ↔ b = a ∨ b ∈ core.addrs ∧ b.key ≠ a.key := by
  obtain ⟨old, stored, oldKey⟩ := mem_keys.mp there
  simp only [setAddr, List.mem_map]
  constructor
  · rintro ⟨c, stored, rfl⟩
    by_cases same : c.key = a.key
    · simp [same]
    · simp [same, stored]
  · rintro (rfl | ⟨stored, other⟩)
    · exact ⟨old, stored, by simp [oldKey]⟩
    · exact ⟨b, stored, by simp [other]⟩

/-- Writing an address back puts its key among a bit's holders or takes it out. -/
theorem holders_setAddr (there : a.key ∈ core.keys) :
    (core.setAddr a).holders bit =
      if bit ∈ a.rnodes then insert a.key (core.holders bit) else (core.holders bit).erase a.key := by
  ext key
  simp only [mem_holders, mem_setAddr there]
  split_ifs with holds
  · rw [Finset.mem_insert, mem_holders]
    constructor
    · rintro ⟨b, rfl | ⟨stored, -⟩, rfl, inB⟩
      · exact .inl rfl
      · exact .inr ⟨b, stored, rfl, inB⟩
    · rintro (rfl | ⟨b, stored, rfl, inB⟩)
      · exact ⟨a, .inl rfl, rfl, holds⟩
      · by_cases same : b.key = a.key
        · exact ⟨a, .inl rfl, same.symm, holds⟩
        · exact ⟨b, .inr ⟨stored, same⟩, rfl, inB⟩
  · rw [Finset.mem_erase, mem_holders]
    constructor
    · rintro ⟨b, rfl | ⟨stored, other⟩, rfl, inB⟩
      · exact absurd inB holds
      · exact ⟨other, b, stored, rfl, inB⟩
    · rintro ⟨other, b, stored, rfl, inB⟩
      exact ⟨b, .inr ⟨stored, other⟩, rfl, inB⟩

/-- An address written back that holds `bit` as it did leaves the bit's
holders. -/
theorem holders_setAddr_of_mem_iff {old : Address} (nodup : core.keys.Nodup) (found : core.addr? a.key = some old)
    (same : bit ∈ a.rnodes ↔ bit ∈ old.rnodes) :
    (core.setAddr a).holders bit = core.holders bit := by
  obtain ⟨stored, oldKey⟩ := mem_of_addr? found
  have there : a.key ∈ core.keys := mem_keys.mpr ⟨old, stored, oldKey⟩
  rw [holders_setAddr there]
  split_ifs with holds
  · exact Finset.insert_eq_of_mem (mem_holders.mpr ⟨old, stored, oldKey, same.mp holds⟩)
  · apply Finset.erase_eq_of_notMem
    rw [mem_holders]
    rintro ⟨b, storedB, sameKey, inB⟩
    -- with distinct keys the address of that key is the old one
    have isOld : b = old := List.inj_on_of_nodup_map nodup storedB stored (sameKey.trans oldKey.symm)
    rw [isOld] at inB
    exact holds (same.mpr inB)

/-- An address written back with the same bits leaves every bit's holders. -/
theorem holders_setAddr_of_rnodes {old : Address} (nodup : core.keys.Nodup) (found : core.addr? a.key = some old)
    (same : a.rnodes = old.rnodes) :
    (core.setAddr a).holders bit = core.holders bit :=
  holders_setAddr_of_mem_iff nodup found (by rw [same])

/-- With distinct keys, a bit has as many holders as there are addresses that
hold it. -/
theorem card_holders (nodup : core.keys.Nodup) (bit : Nat) :
    (core.holders bit).card = (core.addrs.filter fun a => bit ∈ a.rnodes).length := by
  unfold holders
  rw [List.toFinset_card_of_nodup (nodup.sublist (List.filter_sublist.map _)), List.length_map]

theorem addr?_setAddr (nodup : core.keys.Nodup) (there : a.key ∈ core.keys) :
    (core.setAddr a).addr? key = if a.key = key then some a else core.addr? key := by
  have nodup' : (core.setAddr a).keys.Nodup := by rwa [keys_setAddr]
  split_ifs with same
  · exact (addr?_eq_some_iff nodup').mpr ⟨(mem_setAddr there).mpr (.inl rfl), same⟩
  · cases found : core.addr? key with
    | none =>
        rw [addr?_eq_none_iff, keys_setAddr]
        exact addr?_eq_none_iff.mp found
    | some b =>
        obtain ⟨stored, rfl⟩ := mem_of_addr? found
        exact (addr?_eq_some_iff nodup').mpr ⟨(mem_setAddr there).mpr (.inr ⟨stored, Ne.symm same⟩), rfl⟩

theorem noFallback_setAddr (noFallback : core.NoFallback) (none : a.fallback = none) (there : a.key ∈ core.keys) :
    (core.setAddr a).NoFallback := by
  intro b stored
  rcases (mem_setAddr there).mp stored with rfl | ⟨stored, -⟩
  · exact none
  · exact noFallback b stored

/-- `f` through the pointer of a stored address. -/
theorem modifyAddr_of_addr? {f : Address → Address} (found : core.addr? key = some a) :
    core.modifyAddr key f = some (core.setAddr (f a)) := by
  rw [modifyAddr, found, Option.map_some]

/-! ### Adding and removing an address -/

theorem keys_append (b : Address) :
    ({ core with addrs := core.addrs ++ [b] } : Core).keys = core.keys ++ [b.key] := by
  simp [keys]

/-- A new address of a new key keeps the keys distinct. -/
theorem nodup_append {b : Address} (nodup : core.keys.Nodup) (absent : b.key ∉ core.keys) :
    ({ core with addrs := core.addrs ++ [b] } : Core).keys.Nodup := by
  rw [keys_append]
  refine List.nodup_append.mpr ⟨nodup, List.nodup_singleton _, ?_⟩
  intro k inKeys k' single same
  rw [List.mem_singleton] at single
  exact absent (single ▸ same ▸ inKeys)

/-- A new address holds no bit. -/
theorem holders_append {b : Address} (empty : b.rnodes = ∅) :
    ({ core with addrs := core.addrs ++ [b] } : Core).holders bit = core.holders bit := by
  ext key
  simp [mem_holders, empty]

theorem addr?_append {b : Address} (absent : b.key ∉ core.keys) (k : List Char) :
    ({ core with addrs := core.addrs ++ [b] } : Core).addr? k = if b.key = k then some b else core.addr? k := by
  have lookup : ({ core with addrs := core.addrs ++ [b] } : Core).addr? k =
      (core.addr? k).or ([b].find? (·.key = k)) :=
    List.find?_append
  rw [lookup]
  split_ifs with same
  · subst same
    rw [addr?_eq_none_iff.mpr absent]
    simp
  · simp [same]

theorem noFallback_append {b : Address} (noFallback : core.NoFallback) (none : b.fallback = none) :
    ({ core with addrs := core.addrs ++ [b] } : Core).NoFallback := by
  intro c stored
  rcases List.mem_append.mp stored with stored | single
  · exact noFallback c stored
  · rw [List.mem_singleton.mp single]
    exact none

/-- The core without the address of `key`. -/
def removeKey (core : Core) (key : List Char) : Core :=
  { core with addrs := core.addrs.filter (·.key ≠ key) }

@[simp]
theorem routers_removeKey : (core.removeKey key).routers = core.routers := rfl

@[simp]
theorem configTreatment_removeKey : (core.removeKey key).configTreatment = core.configTreatment := rfl

@[simp]
theorem defaultTreatment_removeKey : (core.removeKey key).defaultTreatment = core.defaultTreatment := rfl

theorem keys_removeKey : (core.removeKey key).keys = core.keys.filter (· ≠ key) := by
  simp [removeKey, keys, List.filter_map, Function.comp_def]

theorem mem_removeKey {b : Address} : b ∈ (core.removeKey key).addrs ↔ b ∈ core.addrs ∧ b.key ≠ key := by
  simp [removeKey]

theorem holders_removeKey : (core.removeKey key).holders bit = (core.holders bit).erase key := by
  ext k
  simp only [mem_holders, mem_removeKey, Finset.mem_erase]
  constructor
  · rintro ⟨b, ⟨stored, other⟩, rfl, inB⟩
    exact ⟨other, b, stored, rfl, inB⟩
  · rintro ⟨other, b, stored, rfl, inB⟩
    exact ⟨b, ⟨stored, other⟩, rfl, inB⟩

theorem addr?_removeKey (k : List Char) :
    (core.removeKey key).addr? k = if k = key then none else core.addr? k := by
  split_ifs with same
  · subst same
    rw [addr?_eq_none_iff, keys_removeKey]
    simp
  · simp only [addr?, removeKey, List.find?_filter]
    congr 1
    funext b
    by_cases hit : b.key = k
    · simp [hit, same]
    · simp [hit]

theorem noFallback_removeKey (noFallback : core.NoFallback) : (core.removeKey key).NoFallback :=
  fun b stored => noFallback b (mem_removeKey.mp stored).1

theorem nodup_removeKey (nodup : core.keys.Nodup) : (core.removeKey key).keys.Nodup := by
  rw [keys_removeKey]
  exact nodup.filter _

/-! ### `qdr_check_addr_CT` -/

/-- With no fallback addresses, `qdr_check_addr_CT` on a stored address removes
it when nothing refers to it, and does nothing else. -/
theorem checkAddr_of_addr? (noFallback : core.NoFallback) (found : core.addr? key = some a) :
    checkAddr core key = if a.unreferenced then core.removeKey key else core := by
  obtain ⟨stored, rfl⟩ := mem_of_addr? found
  obtain ⟨n, fuel⟩ : ∃ n, core.addrs.length = n + 1 :=
    Nat.exists_eq_succ_of_ne_zero (List.length_pos_of_mem stored).ne'
  by_cases unreferenced : a.unreferenced = true
  · -- the removed address has no fallback, and nothing has it as fallback
    have noneFallback := noFallback a stored
    have notFallbackFor := Address.fallbackFor_eq_none_of_unreferenced unreferenced
    simp [checkAddr, fuel, qdrCheckAddrCT, found, unreferenced, noneFallback, qdrCoreRemoveAddress,
      notFallbackFor, removeKey]
  · simp [checkAddr, fuel, qdrCheckAddrCT, found, unreferenced]

theorem checkAddr_of_addr?_eq_none (found : core.addr? key = none) : checkAddr core key = core := by
  cases fuel : core.addrs.length with
  | zero => rw [checkAddr, fuel, qdrCheckAddrCT]
  | succ n => rw [checkAddr, fuel, qdrCheckAddrCT, found]

/-- With no fallback addresses, `qdr_check_addr_CT` removes the address of
`key` when nothing refers to it, and nothing else. -/
theorem checkAddr_cases (key : List Char) (noFallback : core.NoFallback) :
    checkAddr core key = core ∨
      (∃ a, core.addr? key = some a ∧ a.unreferenced = true) ∧ checkAddr core key = core.removeKey key := by
  cases found : core.addr? key with
  | none => exact .inl (checkAddr_of_addr?_eq_none found)
  | some a =>
      rw [checkAddr_of_addr? noFallback found]
      by_cases unreferenced : a.unreferenced = true
      · exact .inr ⟨⟨a, rfl, unreferenced⟩, if_pos unreferenced⟩
      · exact .inl (if_neg unreferenced)

/-- `qdr_check_addr_CT` moves no bit's holders. -/
theorem holders_checkAddr (nodup : core.keys.Nodup) (noFallback : core.NoFallback) :
    (checkAddr core key).holders bit = core.holders bit := by
  rcases checkAddr_cases key noFallback with same | ⟨⟨a, found, unreferenced⟩, removed⟩
  · rw [same]
  · rw [removed, holders_removeKey]
    apply Finset.erase_eq_of_notMem
    rw [mem_holders_iff nodup, found]
    rintro ⟨b, hit, holds⟩
    cases hit
    rw [Address.rnodes_eq_empty_of_unreferenced unreferenced] at holds
    exact absurd holds (Finset.notMem_empty bit)

theorem checkAddr_keys_nodup (nodup : core.keys.Nodup) (noFallback : core.NoFallback) :
    (checkAddr core key).keys.Nodup := by
  rcases checkAddr_cases key noFallback with same | ⟨-, removed⟩
  · rwa [same]
  · rw [removed]
    exact nodup_removeKey nodup

theorem noFallback_checkAddr (noFallback : core.NoFallback) : (checkAddr core key).NoFallback := by
  rcases checkAddr_cases key noFallback with same | ⟨-, removed⟩
  · rwa [same]
  · rw [removed]
    exact noFallback_removeKey noFallback

/-- Every other address stays where it is. -/
theorem addr?_checkAddr (noFallback : core.NoFallback) {k : List Char} (other : k ≠ key) :
    (checkAddr core key).addr? k = core.addr? k := by
  rcases checkAddr_cases key noFallback with same | ⟨-, removed⟩
  · rw [same]
  · rw [removed, addr?_removeKey, if_neg other]

theorem mem_keys_checkAddr (noFallback : core.NoFallback) {k : List Char} (other : k ≠ key) :
    k ∈ (checkAddr core key).keys ↔ k ∈ core.keys := by
  rw [← addr?_isSome_iff, ← addr?_isSome_iff, addr?_checkAddr noFallback other]

theorem checkAddr_routers (noFallback : core.NoFallback) : (checkAddr core key).routers = core.routers := by
  rcases checkAddr_cases key noFallback with same | ⟨-, removed⟩
  · rw [same]
  · rw [removed, routers_removeKey]

theorem checkAddr_configTreatment (noFallback : core.NoFallback) :
    (checkAddr core key).configTreatment = core.configTreatment := by
  rcases checkAddr_cases key noFallback with same | ⟨-, removed⟩
  · rw [same]
  · rw [removed, configTreatment_removeKey]

end Core

end DispatchRouter.MobileSync
