import TradingGuardrails.Evm.Trace

/-!
What a diff of two states says. An account that is missing before was created and one that
is missing after was destroyed; of an account that is in both, a balance or a code that is
missing after is unchanged, and a slot that is missing is zero. The program computes the
differences between the two states so described.
-/
namespace TradingGuardrails

open Text

namespace Evm

def accountAt (state : Json) (address : Address) : Option Json :=
  (state.keys.find? fun key => normalizeAddress key == some address).bind fun key =>
    state.field? key

def storageValue (storage : Option Json) (slot : String) : Option Nat :=
  match storage with
  | none => some 0
  | some (.obj entries) =>
      match entries.find? fun entry => normalizeSlot entry.1 == some slot with
      | none => some 0
      | some entry => parseQuantity (.value entry.2)
  | some _ => none

section

variable (pre post : Json) (address : Address)

def balanceBefore : Option Nat :=
  match accountAt pre address with
  | none => some 0
  | some account => (account.field? "balance").bind fun balance => parseQuantity (.value balance)

def balanceAfter : Option Nat :=
  match accountAt post address with
  | none => some 0
  | some account => match account.field? "balance" with
    | none => balanceBefore pre address
    | some balance => parseQuantity (.value balance)

def codeBefore : Option String :=
  parseCode (accountField (accountAt pre address) "code")

def codeAfter : Option String :=
  match accountAt post address with
  | none => some "0x"
  | some account => match account.field? "code" with
    | none => codeBefore pre address
    | some code => parseCode (some code)

def storageAt (state : Json) (address : Address) (slot : String) : Option Nat :=
  storageValue (accountField (accountAt state address) "storage") slot

end

def SpelledAlike (pre post : Json) : Prop :=
  ∀ key ∈ pre.keys ++ post.keys, ∀ key' ∈ pre.keys ++ post.keys, ∀ address,
    normalizeAddress key = some address → normalizeAddress key' = some address → key = key'

variable {pre post : Json} {address : Address}

theorem accountAt_eq {state : Json} {key : String} (hkey : normalizeAddress key = some address)
    (alike : ∀ key' ∈ state.keys, normalizeAddress key' = some address → key' = key) :
    accountAt state address = state.field? key := by
  unfold accountAt
  cases hfind : state.keys.find? fun key => normalizeAddress key == some address with
  | none =>
      have hnone := List.find?_eq_none.mp hfind
      cases hfield : state.field? key with
      | none => rfl
      | some v =>
          have hmem : key ∈ state.keys := Json.field?_isSome.mp (by rw [hfield]; rfl)
          exact absurd (beq_iff_eq.mpr hkey) (hnone key hmem)
  | some key' =>
      have hmem := List.mem_of_find?_eq_some hfind
      have hkey' : (normalizeAddress key' == some address) = true := by
        simpa using List.find?_some hfind
      rw [Option.bind_some, alike key' hmem (beq_iff_eq.mp hkey')]

/-- An address that is not in a map has no entry there. -/
theorem accountAt_none {state : Json}
    (h : ∀ key ∈ state.keys, normalizeAddress key ≠ some address) :
    accountAt state address = none := by
  unfold accountAt
  rw [List.find?_eq_none.mpr fun key hkey => by simpa using h key hkey]
  rfl

theorem asAccount_eq {v : Option Json} (h : v.isSome = true → (asAccount v).isSome = true) :
    asAccount v = v := by
  cases v with
  | none => rfl
  | some v =>
      cases v with
      | obj fs => rfl
      | null | bool | num | str | arr => exact absurd (h rfl) (by simp [asAccount])

theorem nativeBalance_ok {balance : Json} {n : Nat} (h : nativeBalance address balance = .ok n) :
    parseQuantity (.value balance) = some n := by
  unfold nativeBalance at h
  split at h
  · cases h
  · cases h
    assumption

theorem preBalance_ok {account : Json} {n : Nat} (h : preBalance address account = .ok n) :
    ((account.field? "balance").bind fun balance => parseQuantity (.value balance)) = some n := by
  unfold preBalance at h
  split at h
  · cases h
  · rename_i balance hbalance
    rw [hbalance]
    exact nativeBalance_ok h

/-- The difference that is computed is the one between the two balances. -/
theorem nativeDelta_spec {delta : Int} {n : Nat}
    (h : nativeDelta address (accountAt pre address) (accountAt post address) = .ok (delta, n)) :
    ∃ after : Nat, balanceBefore pre address = some n ∧ balanceAfter pre post address = some after ∧
      delta = (after : Int) - n := by
  unfold balanceAfter balanceBefore
  cases hpre : accountAt pre address with
  | none =>
      cases hpost : accountAt post address with
      | none => rw [hpre, hpost] at h; cases h
      | some account =>
          rw [hpre, hpost] at h
          simp only [nativeDelta] at h
          split at h
          · rename_i hbalance
            cases h
            exact ⟨0, rfl, by simp only [hbalance], rfl⟩
          · rename_i balance hbalance
            obtain ⟨after, hafter, h⟩ := bind_eq_ok.mp h
            cases h
            exact ⟨after, rfl, by simp only [hbalance, nativeBalance_ok hafter], by omega⟩
  | some before =>
      cases hpost : accountAt post address with
      | none =>
          rw [hpre, hpost] at h
          obtain ⟨m, hm, h⟩ := bind_eq_ok.mp h
          cases h
          exact ⟨0, preBalance_ok hm, rfl, by omega⟩
      | some account =>
          rw [hpre, hpost] at h
          obtain ⟨m, hm, h⟩ := bind_eq_ok.mp h
          split at h
          · rename_i hbalance
            cases h
            exact ⟨n, preBalance_ok hm, by simp only [hbalance, preBalance_ok hm], by omega⟩
          · rename_i balance hbalance
            obtain ⟨after, hafter, h⟩ := bind_eq_ok.mp h
            cases h
            exact ⟨after, preBalance_ok hm, by simp only [hbalance, nativeBalance_ok hafter], rfl⟩

/-- Code that passes is the same before and after. -/
theorem codeDelta_spec
    (h : codeDelta address (accountAt pre address) (accountAt post address) = .ok ()) :
    ∃ code, codeBefore pre address = some code ∧ codeAfter pre post address = some code := by
  unfold codeDelta at h
  split at h
  · rename_i before after hbefore hafter
    unfold codeAfter
    refine ⟨before, hbefore, ?_⟩
    cases hpost : accountAt post address with
    | none =>
        cases hpre : accountAt pre address with
        | none =>
            rw [hpre] at hbefore
            exact hbefore
        | some account =>
            rw [hpre, hpost] at h
            by_cases hempty : before = "0x"
            · rw [hempty]
            · simp [hempty] at h
    | some account =>
        rw [hpost] at hafter
        simp only [accountField, Option.bind_some] at hafter
        cases hcode : account.field? "code" with
        | none =>
            simp only [hcode]
            exact hbefore
        | some code =>
            rw [hcode] at hafter
            simp only [hcode]
            rw [hafter]
            refine congrArg some ?_
            by_contra hne
            cases hpre : accountAt pre address with
            | none =>
                rw [hpre] at hbefore
                cases hbefore
                rw [hpre, hpost] at h
                exact hne (by simpa using h)
            | some account' =>
                rw [hpre, hpost] at h
                simp only [Json.hasField, hcode, Option.isSome_some, if_true, ne_eq,
                  Ne.symm hne, not_false_eq_true] at h
                split at h <;> cases h
  · cases h

theorem storageEntry_cases {map map' : StorageMap} {entry : String × Json}
    (h : storageEntry map entry = .ok map') :
    ∃ slot n, normalizeSlot entry.1 = some slot ∧ parseQuantity (.value entry.2) = some n ∧
      map.lookup slot = none ∧ map' = map ++ [(slot, n)] := by
  unfold storageEntry at h
  split at h
  · rename_i slot n hslot hn
    split at h
    · cases h
    · rename_i hfree
      cases h
      exact ⟨slot, n, hslot, hn, Option.not_isSome_iff_eq_none.mp hfree, rfl⟩
  · cases h

theorem storageEntry_run {entries : List (String × Json)} {map map' : StorageMap}
    (once : (map.map Prod.fst).Nodup) (h : entries.foldlM storageEntry map = .ok map') :
    (map'.map Prod.fst).Nodup ∧ ∀ slot, map'.lookup slot = (map.lookup slot).or
      ((entries.find? fun entry => normalizeSlot entry.1 == some slot).bind fun entry =>
        parseQuantity (.value entry.2)) := by
  induction entries generalizing map with
  | nil =>
      cases h
      exact ⟨once, fun slot => by rw [List.find?_nil, Option.bind_none, Option.or_none]⟩
  | cons entry entries ih =>
      rw [List.foldlM_cons] at h
      obtain ⟨next, hstep, hrun⟩ := bind_eq_ok.mp h
      obtain ⟨slot, n, hslot, hn, hfree, rfl⟩ := storageEntry_cases hstep
      have hnew : slot ∉ map.map Prod.fst := by
        intro hmem
        obtain ⟨e, he, rfl⟩ := List.mem_map.mp hmem
        have := List.lookup_eq_none_iff.mp hfree e he
        simp at this
      have hnodup : ((map ++ [(slot, n)]).map Prod.fst).Nodup := by
        rw [List.map_append, List.map_singleton, List.nodup_append]
        refine ⟨once, List.nodup_singleton _, fun k hk l hl heq => hnew ?_⟩
        have hkey : k = slot := heq.trans (List.mem_singleton.mp hl)
        exact hkey ▸ hk
      obtain ⟨hfinal, hlookup⟩ := ih hnodup hrun
      refine ⟨hfinal, fun x => ?_⟩
      rw [hlookup x, List.lookup_append, List.find?_cons]
      by_cases hx : x = slot
      · subst hx
        simp [hslot, hn, hfree]
      · have hne : (some slot == some x) = false := by simpa using fun heq => hx heq.symm
        rw [hslot, hne, List.lookup_cons, beq_false_of_ne hx]
        simp

theorem storageEntry_parses {entries : List (String × Json)} {map map' : StorageMap}
    (h : entries.foldlM storageEntry map = .ok map') :
    ∀ entry ∈ entries, ∃ n, parseQuantity (.value entry.2) = some n := by
  induction entries generalizing map with
  | nil => intro entry hentry; cases hentry
  | cons e entries ih =>
      rw [List.foldlM_cons] at h
      obtain ⟨next, hstep, hrun⟩ := bind_eq_ok.mp h
      obtain ⟨slot, n, -, hn, -⟩ := storageEntry_cases hstep
      intro entry hentry
      rcases List.mem_cons.mp hentry with rfl | htail
      · exact ⟨n, hn⟩
      · exact ih hrun entry htail

/-- A storage map that is read holds each slot once, with the value that it shows. -/
theorem parseStorageMap_spec {storage : Option Json} {map : StorageMap}
    (h : parseStorageMap storage = .ok map) :
    (map.map Prod.fst).Nodup ∧
      ∀ slot, storageValue storage slot = some ((map.lookup slot).getD 0) := by
  unfold parseStorageMap at h
  split at h
  · cases h
    exact ⟨List.nodup_nil, fun slot => rfl⟩
  · rename_i entries
    obtain ⟨hnodup, hlookup⟩ := storageEntry_run (by exact List.nodup_nil) h
    refine ⟨hnodup, fun slot => ?_⟩
    rw [hlookup slot]
    simp only [storageValue]
    cases hfind : entries.find? fun entry => normalizeSlot entry.1 == some slot with
    | none => rfl
    | some entry =>
        obtain ⟨n, hn⟩ := storageEntry_parses h entry (List.mem_of_find?_eq_some hfind)
        simp [hn]
  · cases h

def slotEntries (changes : List SlotChange) : List (String × Int) :=
  changes.map fun change => (change.slot, change.delta)

/-- Of changes that are made from the entries of a map, one is about a slot of the map. -/
theorem total_filterMap {map : StorageMap} (once : (map.map Prod.fst).Nodup)
    {f : String × Nat → Option SlotChange} (hf : ∀ e change, f e = some change → change.slot = e.1)
    (slot : String) :
    Ledger.total (· = slot) (slotEntries (map.filterMap f)) =
      ((map.lookup slot).bind fun n => (f (slot, n)).map fun change => change.delta).getD 0 := by
  induction map with
  | nil => rfl
  | cons e map ih =>
      obtain ⟨key, n⟩ := e
      rw [List.map_cons, List.nodup_cons] at once
      have hhead : ∀ rest : List SlotChange,
          Ledger.total (· = slot) (slotEntries ((f (key, n)).toList ++ rest)) =
            (if key = slot then ((f (key, n)).map fun change => change.delta).getD 0 else 0) +
              Ledger.total (· = slot) (slotEntries rest) := by
        intro rest
        cases hfe : f (key, n) with
        | none => simp
        | some change =>
            have hkey : change.slot = key := hf _ _ hfe
            simp [slotEntries, hkey]
      have hcons : ((key, n) :: map).filterMap f = (f (key, n)).toList ++ map.filterMap f := by
        cases hfe : f (key, n) with
        | none => rw [List.filterMap_cons_none hfe]; rfl
        | some change => rw [List.filterMap_cons_some hfe]; rfl
      rw [hcons, hhead, ih once.2, List.lookup_cons]
      by_cases hkey : key = slot
      · subst hkey
        have hnone : map.lookup key = none := by
          rw [List.lookup_eq_none_iff]
          intro e he
          have hmem : e.1 ∈ map.map Prod.fst := List.mem_map_of_mem he
          exact bne_iff_ne.mpr fun heq => once.1 (heq ▸ hmem)
        simp [hnone]
      · rw [if_neg hkey, beq_false_of_ne (Ne.symm hkey), zero_add]

theorem total_cleared {pre : StorageMap} (once : (pre.map Prod.fst).Nodup) (kept : String → Bool)
    (slot : String) :
    Ledger.total (· = slot) (slotEntries (cleared (pre.filter fun e => kept e.1))) =
      if kept slot then -((pre.lookup slot).getD 0 : Int) else 0 := by
  rw [cleared, List.filterMap_filter, total_filterMap once]
  · cases hlookup : pre.lookup slot with
    | none => simp
    | some n =>
        by_cases hkept : kept slot = true
        · by_cases hn : n = 0
          · simp [hkept, hn]
          · simp [hkept, hn]
        · simp [hkept]
  · intro e change h
    split_ifs at h
    cases h
    rfl

theorem total_written {pre post : StorageMap} (once : (post.map Prod.fst).Nodup) (slot : String) :
    Ledger.total (· = slot) (slotEntries (written pre post)) =
      if (post.lookup slot).isSome then
        ((post.lookup slot).getD 0 : Int) - ((pre.lookup slot).getD 0 : Nat) else 0 := by
  rw [written, total_filterMap once]
  · cases hlookup : post.lookup slot with
    | none => rfl
    | some n =>
        by_cases hn : (pre.lookup slot).getD 0 = n
        · simp [hn]
        · simp [hn]
  · intro e change h
    simp only at h
    split_ifs at h
    cases h
    rfl

/-- The changes of a slot add up to the difference between the two states. -/
theorem diffStorage_spec {preAccount postAccount : Option Json} {changes : List SlotChange}
    (h : diffStorage (accountField preAccount "storage") (accountField postAccount "storage")
      (preAccount.isSome && postAccount.isNone) = .ok changes) (slot : String) :
    ∃ before after : Nat,
      storageValue (accountField preAccount "storage") slot = some before ∧
      storageValue (accountField postAccount "storage") slot = some after ∧
      Ledger.total (· = slot) (slotEntries changes) = (after : Int) - before := by
  obtain ⟨pre, hpre, h⟩ := bind_eq_ok.mp h
  obtain ⟨hpreOnce, hpreValue⟩ := parseStorageMap_spec hpre
  split at h
  · rename_i hdestroyed
    have hpost : postAccount = none := by
      rw [Bool.and_eq_true, Option.isNone_iff_eq_none] at hdestroyed
      exact hdestroyed.2
    cases h
    refine ⟨(pre.lookup slot).getD 0, 0, hpreValue slot, by rw [hpost]; rfl, ?_⟩
    have hcleared := total_cleared hpreOnce (fun _ => true) slot
    rw [List.filter_true, if_pos rfl] at hcleared
    rw [hcleared]
    omega
  · obtain ⟨post, hpost, h⟩ := bind_eq_ok.mp h
    obtain ⟨hpostOnce, hpostValue⟩ := parseStorageMap_spec hpost
    cases h
    refine ⟨(pre.lookup slot).getD 0, (post.lookup slot).getD 0, hpreValue slot,
      hpostValue slot, ?_⟩
    have hcleared := total_cleared hpreOnce (fun key => (post.lookup key).isNone) slot
    rw [slotEntries, List.map_append, ← slotEntries, ← slotEntries, Ledger.total_append,
      total_written hpostOnce, hcleared]
    cases hlookup : post.lookup slot with
    | none => simp
    | some n => simp

end Evm
end TradingGuardrails
