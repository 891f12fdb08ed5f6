import SplitReserve.Address
import SplitReserve.Text.Base64

/-!
# Addresses in text

A hash is written as 64 hexadecimal digits, most significant first.  A configuration names an address with `account-hash-`
or `hash-` in front of the digits (`Address.ofText?`), a deployment reports it in a longer form (`Address.report`) and files
it in a third one (`Address.filed`).  The published records of a token file entries under `Address.itemKey`.
-/

namespace SplitReserve

namespace Hash

def hexDigits (h : Hash) : List Char :=
  (List.range 64).map fun i => Nat.digitChar (h.extractLsb' (4 * (63 - i)) 4).toNat

def bytes (h : Hash) : List UInt8 :=
  (List.range 32).map fun i => UInt8.ofBitVec (h.extractLsb' (8 * (31 - i)) 8)

/-- The value of a hexadecimal digit; the letters are small ones. -/
def digitValue? (c : Char) : Option Nat :=
  if '0' ≤ c ∧ c ≤ '9' then some (c.toNat - 48)
  else if 'a' ≤ c ∧ c ≤ 'f' then some (c.toNat - 87)
  else none

/-- Read exactly 64 digits. -/
def ofHexDigits? (cs : List Char) : Option Hash :=
  if cs.length = 64 then
    (cs.mapM digitValue?).map fun ds => BitVec.ofNat 256 (ds.foldl (fun n d => 16 * n + d) 0)
  else none

end Hash

namespace Address

def hash : Address → Hash
  | account h => h
  | contract h => h

/-- Read an address as a configuration writes it. -/
def ofText? (s : String) : Option Address :=
  match "account-hash-".toList.isPrefixOf? s.toList with
  | some rest => (Hash.ofHexDigits? rest).map account
  | none =>
    match "hash-".toList.isPrefixOf? s.toList with
    | some rest => (Hash.ofHexDigits? rest).map contract
    | none => none

/-- The form in which progress is reported. -/
def report (a : Address) : String :=
  let digits := String.ofList (Hash.hexDigits a.hash)
  match a with
  | account _ => "Account(AccountHash(" ++ digits ++ "))"
  | contract _ => "Contract(ContractPackageHash(" ++ digits ++ "))"

/-- The form in which addresses are kept in a file. -/
def filed (a : Address) : String :=
  let digits := String.ofList (Hash.hexDigits a.hash)
  match a with
  | account _ => "entity-account-" ++ digits
  | contract _ => "contract-package-" ++ digits

/-- The bytes of an address: a tag, then the hash. -/
def keyBytes : Address → List UInt8
  | account h => 0 :: Hash.bytes h
  | contract h => 1 :: Hash.bytes h

/-- The name under which entries of several addresses together are published. -/
def itemKey (as : List Address) : String := String.ofList (Text.Base64.encode (as.flatMap keyBytes))

end Address

end SplitReserve
