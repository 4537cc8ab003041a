import DzOS.Drivers.DriverSign
import Mathlib.Data.List.FinRange

/-!
# `DzOS.Proofs.Drivers.DriverSign`: signed manifests and the trust store

The signer and the kernel lay out the manifest in the same way (`hashManifestPayload_eq`), and
the signature is undone by the verification (`mockEd25519Verify_sign`). So a table that holds a
trust store accepts what the keys of the store have signed, and rejects the rest
(`signedManifests_of_holdsStore`).

`driverSignSetTrustStore` never makes such a table. It copies the entries but leaves `TRUST_N`
at 0, and no search finds an entry. `signedManifests_setTrustStore` is the result: a store works
as promised exactly if all its keys are revoked, so that there is nothing to accept.
-/

set_option autoImplicit false

namespace DzOS.Proofs.Drivers

open DzOS.Drivers

variable {ts : List OsTrustEntry} {i : Fin MAX_TRUST} {m : DriverManifest}

/-- What a table promises for a trust store. A manifest that a key of the store has signed is
accepted unless the key is revoked. A manifest is rejected after the revocation of its key, and
when its key is not in the store. -/
structure SignedManifests (table : TrustTable) (ts : List OsTrustEntry) : Prop where
  signed : ∀ e ∈ ts, e.revoked = false → ∀ m : DriverManifest, m.pubkeyId = e.pubkeyId →
    m.signature = HostSign.signature m e.pubkey → driverSignVerifyManifest table (some m) = 0
  revoked : ∀ m : DriverManifest,
    driverSignVerifyManifest (driverSignAddRevocation table m.pubkeyId).2 (some m) = -1
  unknown : ∀ m : DriverManifest, (∀ e ∈ ts, e.pubkeyId ≠ m.pubkeyId) →
    driverSignVerifyManifest table (some m) = -1

/-! ### The signature -/

/-- The signer hashes what the kernel hashes. -/
theorem hashManifestPayload_eq (m : DriverManifest) :
    hashManifestPayload m =
      mockSha256 (HostSign.payload m.name m.version m.bus.code m.class_.code m.codeHash) := by
  simp only [hashManifestPayload, HostSign.payload, List.append_assoc, List.cons_append,
    List.nil_append]

/-- A signature is undone by its key. -/
theorem mockEd25519Verify_sign (pubkey hash : Vector UInt8 32) :
    mockEd25519Verify pubkey hash (HostSign.sign pubkey hash) = 0 := by
  rw [mockEd25519Verify, if_pos]
  refine Vector.ext fun i hi => ?_
  have hlow : (HostSign.sign pubkey hash).get ⟨i, by omega⟩ =
      pubkey.get ⟨i, hi⟩ ^^^ hash.get ⟨i, hi⟩ := by
    show (HostSign.sign pubkey hash)[i] = _
    rw [HostSign.sign, Vector.getElem_ofFn, dif_pos hi]
  have hhigh : (HostSign.sign pubkey hash).get ⟨32 + i, by omega⟩ = 0 := by
    show (HostSign.sign pubkey hash)[32 + i] = _
    rw [HostSign.sign, Vector.getElem_ofFn, dif_neg (Nat.not_lt.mpr (Nat.le_add_right 32 i))]
  rw [Vector.getElem_ofFn, hlow, hhigh, UInt8.xor_zero, ← UInt8.xor_assoc, UInt8.xor_self,
    UInt8.zero_xor]
  rfl

/-! ### The search of the table -/

variable {table : TrustTable} {id : Vector UInt8 32}

theorem findPlace_pred (h : findPlace table id = some i) :
    i < table.trustN ∧ (table.trust.get i).pubkeyId = id := by
  have hpred := List.find?_some h
  rw [Bool.and_eq_true, decide_eq_true_iff, decide_eq_true_iff] at hpred
  exact hpred

theorem findPlace_eq_none :
    findPlace table id = none ↔
      ∀ i : Fin MAX_TRUST, i < table.trustN → (table.trust.get i).pubkeyId ≠ id := by
  rw [findPlace, List.find?_eq_none]
  constructor
  · intro h i hi hid
    refine h i (List.mem_finRange i) ?_
    rw [Bool.and_eq_true, decide_eq_true_iff, decide_eq_true_iff]
    exact ⟨hi, hid⟩
  · intro h i _ hpred
    rw [Bool.and_eq_true, decide_eq_true_iff, decide_eq_true_iff] at hpred
    exact h i hpred.1 hpred.2

/-- The place depends on the key ids alone. -/
theorem findPlace_congr {table' : TrustTable} (hn : table'.trustN = table.trustN)
    (hids : ∀ i, (table'.trust.get i).pubkeyId = (table.trust.get i).pubkeyId) :
    findPlace table' id = findPlace table id := by
  simp only [findPlace, hn, hids]

/-- A manifest without an entry is rejected. -/
theorem verify_of_findPlace_none (h : findPlace table m.pubkeyId = none) :
    driverSignVerifyManifest table (some m) = -1 := by
  unfold driverSignVerifyManifest
  dsimp only
  rw [findEntry, h]
  rfl

/-- A manifest with a revoked entry is rejected. -/
theorem verify_of_revoked (h : findPlace table m.pubkeyId = some i)
    (hrevoked : (table.trust.get i).revoked = true) :
    driverSignVerifyManifest table (some m) = -1 := by
  unfold driverSignVerifyManifest
  dsimp only
  rw [findEntry, h]
  exact if_pos hrevoked

/-- A manifest that the key of its entry has signed is accepted. -/
theorem verify_of_signed (h : findPlace table m.pubkeyId = some i)
    (hvalid : (table.trust.get i).revoked = false)
    (hsign : m.signature = HostSign.signature m (table.trust.get i).pubkey) :
    driverSignVerifyManifest table (some m) = 0 := by
  unfold driverSignVerifyManifest
  dsimp only
  rw [findEntry, h]
  show (if (table.trust.get i).revoked then (-1 : Int) else _) = 0
  rw [hvalid, if_neg Bool.false_ne_true, hsign, HostSign.signature, hashManifestPayload_eq]
  exact mockEd25519Verify_sign _ _

theorem get_revoke (table : TrustTable) (i j : Fin MAX_TRUST) :
    (table.revoke i).trust.get j =
      if i = j then { table.trust.get i with revoked := true } else table.trust.get j := by
  show (table.trust.set i _ i.isLt)[j.val] = _
  rw [Vector.getElem_set]
  simp only [Fin.ext_iff]
  rfl

/-- A revocation does not change the key ids, so every search ends at the same place. -/
theorem findPlace_revoke (table : TrustTable) (i : Fin MAX_TRUST) (id : Vector UInt8 32) :
    findPlace (table.revoke i) id = findPlace table id := by
  refine findPlace_congr rfl fun j => ?_
  rw [get_revoke]
  split_ifs with hij
  · rw [← hij]
  · rfl

/-- After the revocation of a key id, no manifest with this id is accepted. -/
theorem verify_addRevocation (table : TrustTable) (m : DriverManifest) :
    driverSignVerifyManifest (driverSignAddRevocation table m.pubkeyId).2 (some m) = -1 := by
  cases h : findPlace table m.pubkeyId with
  | none =>
    rw [driverSignAddRevocation, h]
    exact verify_of_findPlace_none h
  | some i =>
    rw [driverSignAddRevocation, h]
    show driverSignVerifyManifest (table.revoke i) (some m) = -1
    have hplace : findPlace (table.revoke i) m.pubkeyId = some i := by
      rw [findPlace_revoke, h]
    refine verify_of_revoked hplace ?_
    rw [get_revoke, if_pos rfl]

/-! ### Tables that hold a store -/

/-- The table holds the entries of the store, and counts them. -/
structure HoldsStore (table : TrustTable) (ts : List OsTrustEntry) : Prop where
  count : table.trustN = ts.length
  fits : ts.length ≤ MAX_TRUST
  entries : ∀ i : Fin MAX_TRUST, ∀ h : i.val < ts.length, table.trust.get i = ts[i.val]

/-- With distinct key ids, the search finds the entry of each key. -/
theorem findPlace_of_mem (hholds : HoldsStore table ts)
    (hdistinct : (ts.map OsTrustEntry.pubkeyId).Nodup) {e : OsTrustEntry} (he : e ∈ ts) :
    ∃ i, findPlace table e.pubkeyId = some i ∧ table.trust.get i = e := by
  obtain ⟨k, hk, rfl⟩ := List.getElem_of_mem he
  have hplace : k < MAX_TRUST := Nat.lt_of_lt_of_le hk hholds.fits
  have hentry : table.trust.get ⟨k, hplace⟩ = ts[k] := hholds.entries ⟨k, hplace⟩ hk
  cases h : findPlace table ts[k].pubkeyId with
  | none =>
    have hlt : k < table.trustN := hholds.count ▸ hk
    exact absurd (congrArg OsTrustEntry.pubkeyId hentry) (findPlace_eq_none.mp h ⟨k, hplace⟩ hlt)
  | some i =>
    obtain ⟨hlt, hid⟩ := findPlace_pred h
    have hi : i.val < ts.length := hholds.count ▸ hlt
    rw [hholds.entries i hi] at hid
    have hi' : i.val < (ts.map OsTrustEntry.pubkeyId).length := by rwa [List.length_map]
    have hk' : k < (ts.map OsTrustEntry.pubkeyId).length := by rwa [List.length_map]
    have hids : (ts.map OsTrustEntry.pubkeyId)[i.val] = (ts.map OsTrustEntry.pubkeyId)[k] := by
      rw [List.getElem_map, List.getElem_map]
      exact hid
    have hik : i.val = k := hdistinct.getElem_inj_iff.mp hids
    have heq : i = ⟨k, hplace⟩ := Fin.ext hik
    rw [heq]
    exact ⟨_, rfl, hentry⟩

/-- A table that holds a store with distinct key ids keeps the promise. -/
theorem signedManifests_of_holdsStore (hholds : HoldsStore table ts)
    (hdistinct : (ts.map OsTrustEntry.pubkeyId).Nodup) : SignedManifests table ts where
  signed := by
    intro e he hvalid m hid hsign
    obtain ⟨i, hplace, rfl⟩ := findPlace_of_mem hholds hdistinct he
    rw [← hid] at hplace
    exact verify_of_signed hplace hvalid hsign
  revoked := verify_addRevocation table
  unknown := by
    intro m hne
    refine verify_of_findPlace_none (findPlace_eq_none.mpr fun i hlt => ?_)
    have hi : i.val < ts.length := hholds.count ▸ hlt
    rw [hholds.entries i hi]
    exact hne _ (List.getElem_mem hi)

/-! ### The table after `driver_sign_set_trust_store` -/

/-- Nothing is found in the table. -/
theorem findPlace_setTrustStore (table : TrustTable) (ts : List OsTrustEntry)
    (id : Vector UInt8 32) : findPlace (driverSignSetTrustStore table (some ts)) id = none :=
  findPlace_eq_none.mpr fun i hlt => absurd hlt (Nat.not_lt_zero i)

/-- The trust store works as promised exactly if all its keys are revoked. -/
theorem signedManifests_setTrustStore (table : TrustTable) (ts : List OsTrustEntry) :
    SignedManifests (driverSignSetTrustStore table (some ts)) ts ↔
      ∀ e ∈ ts, e.revoked = true := by
  constructor
  · intro hpromise e he
    by_contra hvalid
    -- a manifest with the key id of the entry, signed with its key
    let m : DriverManifest :=
      { name := [], version := 0, bus := .none, class_ := .misc, pubkeyId := e.pubkeyId,
        codeHash := Vector.replicate 32 0, signature := Vector.replicate 64 0 }
    have haccepted := hpromise.signed e he (Bool.eq_false_iff.mpr hvalid)
      { m with signature := HostSign.signature m e.pubkey } rfl rfl
    rw [verify_of_findPlace_none (findPlace_setTrustStore table ts _)] at haccepted
    exact absurd haccepted (by decide)
  · intro hrevoked
    refine ⟨?_, verify_addRevocation _, ?_⟩
    · intro e he hvalid
      rw [hrevoked e he] at hvalid
      cases hvalid
    · intro m _
      exact verify_of_findPlace_none (findPlace_setTrustStore table ts _)

/-- The store of `os_trust.c`: one key, which is not revoked. -/
def osTrustStore : List OsTrustEntry :=
  [{ pubkeyId := Vector.ofFn fun i => [0x11, 0x22, 0x33].getD i 0,
     pubkey := Vector.ofFn fun i => [0xAA, 0xBB, 0xCC].getD i 0,
     revoked := false }]

/-- With the store of the kernel, no manifest is accepted. -/
theorem osTrustStore_rejects :
    ¬ SignedManifests (driverSignSetTrustStore
        { trust := Vector.replicate 16 ⟨Vector.replicate 32 0, Vector.replicate 32 0, false⟩,
          trustN := 0 } (some osTrustStore)) osTrustStore := by
  rw [signedManifests_setTrustStore]
  intro hrevoked
  exact absurd (hrevoked _ List.mem_cons_self) (by decide)

end DzOS.Proofs.Drivers
