import Snuffleupagus.Log

/-! # Networks

The module of the `.cidr()` filter. Addresses are in network order: the first byte of an address is
the most significant one of its bit vector. -/

namespace Snuffleupagus.Match.Network

open Snuffleupagus.Lib.Effect Snuffleupagus.Php.Bytes Snuffleupagus.Php.Engine
open Snuffleupagus.Config.Rule Snuffleupagus.Log

/-- `cidr4_match`. -/
def cidr4Match (addr net : BitVec 32) (bits : ℕ) : Bool :=
  if bits = 0 then true
  else (addr ^^^ net) &&& ((0xFFFFFFFF : BitVec 32) <<< (32 - bits)) == 0

/-- The 32-bit words of an address, the first one at index 0. -/
def ip6Word (a : BitVec 128) (i : ℕ) : BitVec 32 := a.extractLsb' (96 - 32 * i) 32

/-- `cidr6_match`: whole words by `memcmp`, then the bits of an incomplete one. -/
def cidr6Match (address network : BitVec 128) (bits : ℕ) : Bool :=
  let bitsWhole := bits / 32
  let bitsIncomplete := bits % 32
  if (List.range bitsWhole).any fun i => ip6Word address i != ip6Word network i then false
  else if bitsIncomplete = 0 then true
  else (ip6Word address bitsWhole ^^^ ip6Word network bitsWhole) &&&
    ((0xFFFFFFFF : BitVec 32) <<< (32 - bitsIncomplete)) == 0

variable (w : World) (g : SpGlobals)

/-- `get_ip_version` and the address read by `inet_pton`. -/
def getIp (ip : ZendString) : Option SpIp :=
  match w.inetPton4 ip, w.inetPton6 ip with
  | some a, _ => some (.v4 a)
  | none, some a => some (.v6 a)
  | none, none => none

/-- `cidr_match`. -/
def cidrMatch (ip : ZendString) (cidr : SpCidr) : Sp Bool :=
  match getIp w ip, cidr.ip with
  | some (.v4 a), .v4 net => pure (cidr4Match a net cidr.mask)
  | some (.v6 a), .v6 net => pure (cidr6Match a net cidr.mask)
  | some _, _ => pure false
  | none, _ => do
    spLogErr w g "cidr_match" "Weird ip (%s) family" [ip]
    pure false

end Snuffleupagus.Match.Network
