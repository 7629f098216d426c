import ChimeraMQ.Foundation.Bytes

/-!
# Network addresses

Addresses with ports, internet addresses of both versions as they are written,
and networks given by an address and the length of their prefix.
-/

namespace ChimeraMQ
namespace Foundation

def splitOn (sep : UInt8) : Bytes -> List Bytes
  | [] => [[]]
  | c :: rest =>
    if c = sep then [] :: splitOn sep rest
    else
      match splitOn sep rest with
      | [] => [[c]]
      | piece :: pieces => (c :: piece) :: pieces

def splitN (sep : UInt8) : Nat -> Bytes -> List Bytes
  | 0, _ => []
  | 1, s => [s]
  | n + 2, s =>
    match s.dropWhile (fun c => c ≠ sep) with
    | [] => [s]
    | _ :: rest => s.takeWhile (fun c => c ≠ sep) :: splitN sep (n + 1) rest

def splitHostPort (hostport : Bytes) : Option Bytes :=
  match hostport.reverse.idxOf? 58 with
  | none => none
  | some back =>
  let i := hostport.length - 1 - back
  if hostport.head? = some 91 then
    match hostport.idxOf? 93 with
    | none => none
    | some close =>
    if close + 1 ≠ i then none
    else if (hostport.drop 1).contains 91 then none
    else if (hostport.drop (close + 1)).contains 93 then none
    else some ((hostport.take close).drop 1)
  else
    let host := hostport.take i
    if host.contains 58 then none
    else if hostport.contains 91 || hostport.contains 93 then none
    else some host

/-!
## Internet addresses
-/

inductive IPAddr where
  | v4 (b : Bytes)
  | v6 (b : Bytes)
deriving DecidableEq

namespace IPAddr

def bitLen : IPAddr -> Nat
  | .v4 _ => 32
  | .v6 _ => 128

/-- What stands before an address of version 4 within one of version 6. -/
def v4InV6Prefix : Bytes :=
  List.replicate 10 0 ++ [255, 255]

def as16 : IPAddr -> Bytes
  | .v4 b => v4InV6Prefix ++ b
  | .v6 b => b

end IPAddr

def decimalDigit (c : UInt8) : Option Nat :=
  if 48 ≤ c ∧ c ≤ 57 then some (c.toNat - 48) else none

def hexDigit (c : UInt8) : Option Nat :=
  if 48 ≤ c ∧ c ≤ 57 then some (c.toNat - 48)
  else if 97 ≤ c ∧ c ≤ 102 then some (c.toNat - 87)
  else if 65 ≤ c ∧ c ≤ 70 then some (c.toNat - 55)
  else none

/-- A number from zero to 255 that is written without needless zeros. -/
def parseOctet (field : Bytes) : Option UInt8 :=
  match field.mapM decimalDigit with
  | none => none
  | some digits =>
  let n := digits.foldl (fun n d => n * 10 + d) 0
  if digits = [] ∨ digits.head? = some 0 ∧ 1 < digits.length ∨ 255 < n then
    none
  else some (UInt8.ofNat n)

def parseIPv4Fields (s : Bytes) : Option Bytes :=
  let fields := splitOn 46 s
  if fields.length = 4 then fields.mapM parseOctet else none

/--
Go on with an address of version 6: the bytes so far and where among them the
zeros that are left out belong.  The first number bounds the groups.
-/
def parseGroups : Nat -> Bytes -> Option Nat -> Bytes ->
    Option (Bytes × Option Nat)
  | 0, _, _, _ => none
  | k + 1, ip, ellipsis, s =>
    let digits := s.takeWhile (fun c => (hexDigit c).isSome)
    let rest := s.drop digits.length
    if digits = [] ∨ 4 < digits.length ∨ 16 ≤ ip.length then none
    else if rest.head? = some 46 then
      if ellipsis = none ∧ ip.length ≠ 12 ∨ 16 < ip.length + 4 then none
      else (parseIPv4Fields s).map (fun b => (ip ++ b, ellipsis))
    else
      let acc := (digits.filterMap hexDigit).foldl (fun n d => n * 16 + d) 0
      let ip := ip ++ be 2 acc
      match rest with
      | [] => some (ip, ellipsis)
      | 58 :: 58 :: rest =>
        if ellipsis ≠ none then none
        else if rest = [] then some (ip, some ip.length)
        else parseGroups k ip (some ip.length) rest
      | 58 :: c :: rest => parseGroups k ip ellipsis (c :: rest)
      | _ => none

def expandEllipsis (ip : Bytes) (ellipsis : Option Nat) : Option Bytes :=
  match ellipsis with
  | none => if ip.length = 16 then some ip else none
  | some at_ =>
    if ip.length < 16 then
      some (ip.take at_ ++ List.replicate (16 - ip.length) 0 ++ ip.drop at_)
    else none

def parseIPv6 (s : Bytes) : Option Bytes :=
  match s with
  | [58, 58] => some (List.replicate 16 0)
  | 58 :: 58 :: rest =>
    match parseGroups 8 [] (some 0) rest with
    | none => none
    | some (ip, ellipsis) => expandEllipsis ip ellipsis
  | _ =>
    match parseGroups 8 [] none s with
    | none => none
    | some (ip, ellipsis) => expandEllipsis ip ellipsis

def parseAddr (s : Bytes) : Option IPAddr :=
  if s.contains 37 then none
  else
    match s.find? (fun c => c = 46 ∨ c = 58) with
    | none => none
    | some c =>
      if c = 46 then (parseIPv4Fields s).map .v4
      else (parseIPv6 s).map .v6

/-!
## Networks
-/

structure IPNet where
  ip : Bytes
  mask : Bytes
deriving DecidableEq

def cidrMask (ones bits : Nat) : Bytes :=
  be (bits / 8) ((2 ^ ones - 1) * 2 ^ (bits - ones))

def maskBytes (ip mask : Bytes) : Bytes :=
  List.zipWith (· &&& ·) ip mask

/-- The four bytes of an address of version 4, also within one of version 6. -/
def to4 (ip : Bytes) : Bytes :=
  if ip.length = 16 ∧ ip.take 12 = IPAddr.v4InV6Prefix then ip.drop 12 else ip

def parseCIDR (s : Bytes) : Option IPNet :=
  match s.idxOf? 47 with
  | none => none
  | some i =>
  match parseAddr (s.take i), (s.drop (i + 1)).mapM decimalDigit with
  | some addr, some digits =>
    let n := digits.foldl (fun n d => n * 10 + d) 0
    if digits = [] ∨ addr.bitLen < n then none
    else
      let mask := cidrMask n addr.bitLen
      let ip :=
        match addr with
        | .v4 b => b
        | .v6 b => b
      some { ip := maskBytes ip mask, mask := mask }
  | _, _ => none

namespace IPNet

def contains (net : IPNet) (addr : Option IPAddr) : Bool :=
  match addr with
  | none => false
  | some addr =>
  let number := to4 net.ip
  let mask :=
    if number.length = 4 ∧ net.mask.length = 16 then net.mask.drop 12
    else net.mask
  let ip := to4 addr.as16
  ip.length = number.length &&
    maskBytes number mask = maskBytes ip mask

end IPNet

example : (parseCIDR (ascii "10.0.0.0/8")).map
    (fun net => net.contains (parseAddr (ascii "10.1.2.3"))) = some true := by
  decide +kernel

example : parseAddr (ascii "::ffff:10.1.2.3") =
    some (.v6 (IPAddr.v4InV6Prefix ++ [10, 1, 2, 3])) := by
  decide +kernel

end Foundation
end ChimeraMQ
