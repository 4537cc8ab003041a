import DzOS.Drivers.Driver

/-!
# `DzOS.Drivers.DriverSign`: signed manifests of `driver_sign.c`, and their signer

The kernel keeps a table of trusted keys (`TRUST` and `TRUST_N`) and verifies manifests with
it. The signer is the host program `host_sign_mock.c`. It signs one fixed manifest. `HostSign`
has its procedure with the values of the manifest and the key as arguments.

Both files have the same `mock_sha256`. It stores its words in the byte order of the machine,
which is little-endian.
-/

set_option autoImplicit false

namespace DzOS.Drivers

/-! ### The hash and the signature -/

/-- The four words of `mock_sha256`. -/
structure ShaWords where
  a : UInt32
  b : UInt32
  c : UInt32
  d : UInt32

/-- One turn of the loop of `mock_sha256`: the byte at the index `i`. -/
def shaTurn (words : ShaWords) (byte : UInt8) (i : ℕ) : ShaWords :=
  let x := byte.toUInt32
  { a := words.a * (33 : UInt32) ^^^ (x + (UInt8.ofNat i).toUInt32)
    b := words.b * (65537 : UInt32) ^^^ (x <<< 1)
    c := words.c ^^^ x * (0x9e3779b1 : UInt32)
    d := ((words.d <<< 5) ||| (words.d >>> 27)) ^^^ x }

/-- `mock_sha256`. -/
def mockSha256 (input : List UInt8) : Vector UInt8 32 :=
  let words := input.zipIdx.foldl (fun words byte => shaTurn words byte.1 byte.2)
    { a := 0x6a09e667, b := 0xbb67ae85, c := 0x3c6ef372, d := 0xa54ff53a }
  let s : List UInt32 :=
    [words.a, words.b, words.c, words.d, words.a ^^^ words.b, words.b ^^^ words.c,
      words.c ^^^ words.d, words.d ^^^ words.a]
  Vector.ofFn fun i => (s.getD (i / 4) 0 >>> UInt32.ofNat (8 * (i % 4))).toUInt8

/-- `mock_ed25519_verify`: 0 if the signature is that of the hash under the key, else -1. -/
def mockEd25519Verify (pubkey msgHash : Vector UInt8 32) (sig : Vector UInt8 64) : Int :=
  let x : Vector UInt8 32 := Vector.ofFn fun i =>
    pubkey.get i ^^^ sig.get ⟨i, by omega⟩ ^^^ sig.get ⟨32 + i, by omega⟩
  if x = msgHash then 0 else -1

/-! ### The trust store -/

/-- `os_trust_entry_t`. -/
structure OsTrustEntry where
  pubkeyId : Vector UInt8 32
  pubkey : Vector UInt8 32
  revoked : Bool

def MAX_TRUST : ℕ := 16

/-- `TRUST` and `TRUST_N`. -/
structure TrustTable where
  trust : Vector OsTrustEntry MAX_TRUST
  trustN : ℕ

/-- `driver_sign_set_trust_store`. A store is the list of its entries. -/
def driverSignSetTrustStore (table : TrustTable) (ts : Option (List OsTrustEntry)) :
    TrustTable :=
  match ts with
  | none => { table with trustN := 0 }
  | some entries =>
    { trust := Vector.ofFn fun i => entries.getD i (table.trust.get i)
      trustN := 0 }

/-- The loop of `find_entry` and of `driver_sign_add_revocation`: the first place below
`TRUST_N` with the key id. -/
def findPlace (table : TrustTable) (id : Vector UInt8 32) : Option (Fin MAX_TRUST) :=
  (List.finRange MAX_TRUST).find? fun i =>
    decide (i < table.trustN) && decide ((table.trust.get i).pubkeyId = id)

/-- The entry at a place is revoked. -/
def TrustTable.revoke (table : TrustTable) (i : Fin MAX_TRUST) : TrustTable :=
  { table with trust := table.trust.set i { table.trust.get i with revoked := true } i.isLt }

/-- `driver_sign_add_revocation`. -/
def driverSignAddRevocation (table : TrustTable) (id : Vector UInt8 32) : Int × TrustTable :=
  match findPlace table id with
  | some i => (0, table.revoke i)
  | none => (-1, table)

/-- `find_entry`. -/
def findEntry (table : TrustTable) (id : Vector UInt8 32) : Option OsTrustEntry :=
  (findPlace table id).map table.trust.get

/-! ### Manifests -/

/-- `strlen` and the bytes before the terminating zero. -/
def cString (text : List UInt8) : List UInt8 :=
  text.takeWhile (· ≠ 0)

/-- `hash_manifest_payload`. -/
def hashManifestPayload (m : DriverManifest) : Vector UInt8 32 :=
  mockSha256 <|
    (mockSha256 (cString m.name)).toList ++
    [((m.version >>> 24) &&& 0xFF).toUInt8, ((m.version >>> 16) &&& 0xFF).toUInt8,
      ((m.version >>> 8) &&& 0xFF).toUInt8, (m.version &&& 0xFF).toUInt8] ++
    [m.bus.code, m.class_.code, 0, 0] ++
    m.codeHash.toList

/-- `driver_sign_verify_manifest`: 0 if the manifest is accepted, else -1. -/
def driverSignVerifyManifest (table : TrustTable) (m : Option DriverManifest) : Int :=
  match m with
  | none => -1
  | some m =>
    match findEntry table m.pubkeyId with
    | none => -1
    | some e =>
      if e.revoked then -1
      else mockEd25519Verify e.pubkey (hashManifestPayload m) m.signature

/-! ### The signer -/

namespace HostSign

/-- The buffer that `main` hashes, with the bytes of the bus and of the class. -/
def payload (name : List UInt8) (version : UInt32) (bus class_ : UInt8)
    (codeHash : Vector UInt8 32) : List UInt8 :=
  let nameHash := mockSha256 (cString name)
  let buf := nameHash.toList
  let buf := buf ++ [((version >>> 24) &&& 0xFF).toUInt8]
  let buf := buf ++ [((version >>> 16) &&& 0xFF).toUInt8]
  let buf := buf ++ [((version >>> 8) &&& 0xFF).toUInt8]
  let buf := buf ++ [(version &&& 0xFF).toUInt8]
  let buf := buf ++ [bus]
  let buf := buf ++ [class_]
  let buf := buf ++ [0]
  let buf := buf ++ [0]
  buf ++ codeHash.toList

/-- The loop of `main` that makes the signature: the key and the hash in the first half, and
zeros in the second. -/
def sign (pubkey payloadHash : Vector UInt8 32) : Vector UInt8 64 :=
  Vector.ofFn fun i =>
    if h : i.val < 32 then pubkey.get ⟨i, h⟩ ^^^ payloadHash.get ⟨i, h⟩ else 0

/-- The signature of the manifest under the key. -/
def signature (m : DriverManifest) (pubkey : Vector UInt8 32) : Vector UInt8 64 :=
  sign pubkey (mockSha256 (payload m.name m.version m.bus.code m.class_.code m.codeHash))

end HostSign

end DzOS.Drivers
