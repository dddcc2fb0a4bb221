import AstraVeil.Lib.Linked
import AstraVeil.Lib.Runs
import AstraVeil.Lib.Utf16

/-!
# Two developer key stores over one file

`modules/security/DeveloperKeyStore.kt`: the file is read when a store is made and rewritten as a
whole by every change.  The module manager holds one store for its whole life, a settings screen
makes another one.  Beside the two stores the state has what was last written to the file, and the
keys that all calls on both stores come to (`history`).

* `keySet_apply_iff`: the calls that leave the set of public keys as it is;
* `live_iff`: both stores, and the file, show what all calls come to exactly as long as no call
  changes that set.
-/

namespace AstraVeil.Modules

open Utf16 Finmaps Linked Runs

/-- `TrustedKey`. -/
structure TrustedKey where
  publicKeyB64 : JString
  fingerprint : JString
  label : JString
  trustedAt : ℤ

/-- A call that changes a store. -/
inductive KeyCall
  | trust (key : TrustedKey)
  | revoke (fingerprint : JString)

namespace DeveloperKeyStore

/-- The private map `keys`, by fingerprint. -/
abbrev Keys := Map JString TrustedKey

/-- The constructor: what `decodeFromString` makes of the file, if it does. -/
def init (decoded : Option (List TrustedKey)) : Keys :=
  (decoded.getD []).foldl (fun keys key => put keys key.fingerprint key) ∅

/-- `all`. -/
def all (keys : Keys) : List TrustedKey := keys.entries.map (·.2)

/-- `trustedKeySet`. -/
def trustedKeySet (keys : Keys) : Finset JString := ((all keys).map (·.publicKeyB64)).toFinset

/-- `trust` and `revoke`, on the map. -/
def apply (keys : Keys) : KeyCall → Keys
  | .trust key => put keys key.fingerprint key
  | .revoke fingerprint => keys.erase fingerprint

end DeveloperKeyStore

open DeveloperKeyStore

/-- The two stores. -/
inductive Holder
  | manager
  | settings
  deriving DecidableEq

/-- Two stores over one file. -/
structure KeyStores where
  keys : Holder → Keys
  /-- What `persist` last wrote to the file. -/
  written : Option (List TrustedKey)
  /-- What the calls on both stores come to. -/
  history : Keys

namespace KeyStores

/-- Both stores are made from one file. -/
def start (decoded : Option (List TrustedKey)) : KeyStores where
  keys _ := init decoded
  written := none
  history := init decoded

/-- A call on one of the stores, with its `persist`. -/
def step (s : KeyStores) (op : Holder × KeyCall) : KeyStores :=
  let keys := apply (s.keys op.1) op.2
  { keys := Function.update s.keys op.1 keys
    written := some (all keys)
    history := apply s.history op.2 }

/-- Both stores show the keys that all calls come to, and so does the file. -/
structure Live (s : KeyStores) : Prop where
  shown : ∀ who, trustedKeySet (s.keys who) = trustedKeySet s.history
  saved : ∀ keys, s.written = some keys →
    (keys.map (·.publicKeyB64)).toFinset = trustedKeySet s.history

end KeyStores

namespace DeveloperKeyStore

variable {keys : Keys}

/-- A public key held under a fingerprint that meets a condition. -/
def HeldUnder (keys : Keys) (p : JString → Prop) (publicKey : JString) : Prop :=
  ∃ fp key, p fp ∧ keys.lookup fp = some key ∧ key.publicKeyB64 = publicKey

theorem mem_trustedKeySet {publicKey : JString} :
    publicKey ∈ trustedKeySet keys ↔ HeldUnder keys (fun _ => True) publicKey := by
  rw [trustedKeySet, List.mem_toFinset, all, List.map_map, List.mem_map]
  constructor
  · rintro ⟨e, he, rfl⟩
    exact ⟨e.1, e.2, trivial, AList.mem_lookup_iff.2 he, rfl⟩
  · rintro ⟨fp, key, -, hlookup, rfl⟩
    exact ⟨⟨fp, key⟩, AList.mem_lookup_iff.1 hlookup, rfl⟩

/-- The call leaves the public keys as they are: one that is trusted is there already, and one
that is replaced or revoked is the same or held under another fingerprint too. -/
def Idle (keys : Keys) : KeyCall → Prop
  | .trust key => HeldUnder keys (fun _ => True) key.publicKeyB64 ∧
      ∀ old, keys.lookup key.fingerprint = some old →
        old.publicKeyB64 = key.publicKeyB64 ∨
          HeldUnder keys (· ≠ key.fingerprint) old.publicKeyB64
  | .revoke fingerprint => ∀ old, keys.lookup fingerprint = some old →
      HeldUnder keys (· ≠ fingerprint) old.publicKeyB64

/-- A key is held under the fingerprint at hand or under another one. -/
theorem heldUnder_true_iff (fp publicKey : JString) :
    HeldUnder keys (fun _ => True) publicKey ↔
      (∃ old, keys.lookup fp = some old ∧ old.publicKeyB64 = publicKey) ∨
        HeldUnder keys (· ≠ fp) publicKey := by
  constructor
  · rintro ⟨fp', key, -, hlookup, hkey⟩
    by_cases hfp : fp' = fp
    · exact Or.inl ⟨key, hfp ▸ hlookup, hkey⟩
    · exact Or.inr ⟨fp', key, hfp, hlookup, hkey⟩
  · rintro (⟨old, hlookup, hkey⟩ | ⟨fp', key, -, hlookup, hkey⟩)
    · exact ⟨fp, old, trivial, hlookup, hkey⟩
    · exact ⟨fp', key, trivial, hlookup, hkey⟩

theorem heldUnder_trust {key : TrustedKey} {publicKey : JString} :
    HeldUnder (apply keys (.trust key)) (fun _ => True) publicKey ↔
      key.publicKeyB64 = publicKey ∨ HeldUnder keys (· ≠ key.fingerprint) publicKey := by
  rw [heldUnder_true_iff key.fingerprint]
  refine or_congr ?_ (exists_congr fun fp => exists_congr fun k => ?_)
  · simp [apply]
  · refine and_congr_right fun hfp => ?_
    rw [apply, lookup_put_ne _ _ hfp]

theorem heldUnder_revoke {fp publicKey : JString} :
    HeldUnder (apply keys (.revoke fp)) (fun _ => True) publicKey ↔
      HeldUnder keys (· ≠ fp) publicKey := by
  rw [heldUnder_true_iff fp]
  have hnone : (apply keys (.revoke fp)).lookup fp = none := AList.lookup_erase fp keys
  simp only [hnone, reduceCtorEq, false_and, exists_false, false_or]
  refine exists_congr fun fp' => exists_congr fun k => and_congr_right fun hfp => ?_
  rw [apply, AList.lookup_erase_ne hfp]

/-- These are exactly the calls that leave `trustedKeySet` alone. -/
theorem keySet_apply_iff (keys : Keys) (call : KeyCall) :
    trustedKeySet (apply keys call) = trustedKeySet keys ↔ Idle keys call := by
  simp only [Finset.ext_iff, mem_trustedKeySet]
  cases call with
  | trust key =>
    simp only [heldUnder_trust, Idle]
    constructor
    · intro h
      refine ⟨(h key.publicKeyB64).1 (Or.inl rfl), fun old hold => ?_⟩
      have hheld := (h old.publicKeyB64).2 ⟨key.fingerprint, old, trivial, hold, rfl⟩
      exact hheld.imp_left Eq.symm
    · rintro ⟨hheld, hold⟩ publicKey
      constructor
      · rintro (rfl | hother)
        · exact hheld
        · exact (heldUnder_true_iff key.fingerprint publicKey).2 (Or.inr hother)
      · intro h
        rcases (heldUnder_true_iff key.fingerprint publicKey).1 h with ⟨old, hlookup, rfl⟩ | hother
        · exact (hold old hlookup).imp_left Eq.symm
        · exact Or.inr hother
  | revoke fp =>
    simp only [heldUnder_revoke, Idle]
    constructor
    · intro h old hold
      exact (h old.publicKeyB64).2 ⟨fp, old, trivial, hold, rfl⟩
    · intro hold publicKey
      rw [heldUnder_true_iff fp publicKey]
      refine ⟨Or.inr, ?_⟩
      rintro (⟨old, hlookup, rfl⟩ | hother)
      · exact hold old hlookup
      · exact hother

end DeveloperKeyStore

namespace KeyStores

variable {s : KeyStores}

/-- The call changes the public keys neither of the store it is made on nor of the history. -/
def Quiet (s : KeyStores) (op : Holder × KeyCall) : Prop :=
  Idle s.history op.2 ∧ Idle (s.keys op.1) op.2

theorem keys_step_self (s : KeyStores) (who : Holder) (call : KeyCall) :
    (step s (who, call)).keys who = apply (s.keys who) call := Function.update_self ..

theorem keys_step_ne (s : KeyStores) {who other : Holder} (h : other ≠ who) (call : KeyCall) :
    (step s (who, call)).keys other = s.keys other := Function.update_of_ne h ..

theorem exists_other (who : Holder) : ∃ other : Holder, other ≠ who := by
  cases who with
  | manager => exact ⟨.settings, by decide⟩
  | settings => exact ⟨.manager, by decide⟩

/-- One call keeps the stores live exactly when it changes nothing: the other store does not hear
of it. -/
theorem live_step_iff (h : Live s) (op : Holder × KeyCall) : Live (step s op) ↔ Quiet s op := by
  obtain ⟨who, call⟩ := op
  rw [Quiet, ← keySet_apply_iff, ← keySet_apply_iff]
  constructor
  · intro h'
    obtain ⟨other, hother⟩ := exists_other who
    have hstale : trustedKeySet s.history = trustedKeySet (apply s.history call) := by
      rw [← h.shown other, ← keys_step_ne s hother call]
      exact h'.shown other
    refine ⟨hstale.symm, ?_⟩
    rw [h.shown who, hstale, ← keys_step_self s who call]
    exact h'.shown who
  · rintro ⟨hhistory, hkeys⟩
    have hself : trustedKeySet (apply (s.keys who) call) =
        trustedKeySet (apply s.history call) := by
      rw [hkeys, h.shown who, hhistory]
    refine ⟨fun other => ?_, fun keys hkeys => ?_⟩
    · by_cases hother : other = who
      · rw [hother, keys_step_self]
        exact hself
      · rw [keys_step_ne s hother, h.shown other]
        exact hhistory.symm
    · obtain rfl := Option.some.inj hkeys
      exact hself

theorem live_start (decoded : Option (List TrustedKey)) : Live (start decoded) :=
  ⟨fun _ => rfl, fun _ h => by cases h⟩

/-- **Whatever the file holds, and however the calls on the two stores are interleaved, both stores
show at every moment what all calls come to exactly when no call changes the set of public
keys.** -/
theorem live_iff (decoded : Option (List TrustedKey)) (ops : List (Holder × KeyCall)) :
    (∀ pre post, ops = pre ++ post → Live (run step (start decoded) pre)) ↔
      Along step Quiet (start decoded) ops :=
  prefixes_iff_along (I := Live) (fun _ op h => live_step_iff h op) (live_start decoded)

/-- A key trusted in the settings: the module manager does not know of it. -/
theorem not_live_trusted :
    ¬ ∀ decoded ops, ∀ pre post, ops = pre ++ post → Live (run step (start decoded) pre) := by
  intro h
  have hlive := h none [(.settings, .trust ⟨[0x4B], [0x46], [], 0⟩)] _ []
    (List.append_nil _).symm
  have hshown := hlive.shown .manager
  exact absurd hshown (by decide)

end KeyStores

end AstraVeil.Modules
