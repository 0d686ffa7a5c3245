import Dserver.Base.Convert
import Dserver.Net.Buffer

/-!
# `InetAddress` and its texts

`toIp`, `toIpPort` and the constructor from a text. The numbers of a `sockaddr_in` are the bytes in memory, in network
order. Libraries differ in whether `inet_pton` takes a number with leading zeros; `strict` says that it does not.
-/

namespace Dserver.Net

def AF_INET : UInt16 := 2

def INET_ADDRSTRLEN : Nat := 16

def INADDR_ANY : UInt32 := 0x00000000

def INADDR_LOOPBACK : UInt32 := 0x7f000001

structure InAddr where
  a : Byte
  b : Byte
  c : Byte
  d : Byte
  deriving DecidableEq, Repr

structure InPort where
  high : Byte
  low : Byte
  deriving DecidableEq, Repr

structure InetAddress where
  family : UInt16 := 0
  port : InPort := ⟨0, 0⟩
  addr : InAddr := ⟨0, 0, 0, 0⟩
  deriving DecidableEq, Repr

namespace InetAddress

/-- The two assertions on the size of `buf`. -/
inductive Fault where
  | toIp
  | toIpPort
  deriving DecidableEq, Repr

def hostToNetwork32 (host : UInt32) : InAddr :=
  ⟨.ofNat (host.toNat / 256 ^ 3), .ofNat (host.toNat / 256 ^ 2), .ofNat (host.toNat / 256), .ofNat host.toNat⟩

def hostToNetwork16 (host : UInt16) : InPort := ⟨.ofNat (host.toNat / 256), .ofNat host.toNat⟩

def networkToHost16 (net : InPort) : UInt16 := .ofNat (net.high.toNat * 256 + net.low.toNat)

/-- `%u`, and one number of `inet_ntop`. -/
def number (n : Nat) : List Byte := Lib.numeral 10 LogStream.decimalDigit n

/-- The text that `inet_ntop` writes. -/
def dotted (addr : InAddr) : List Byte :=
  number addr.a.toNat ++ 46 :: (number addr.b.toNat ++ 46 :: (number addr.c.toNat ++ 46 :: number addr.d.toNat))

/-- One number of the text that `inet_pton` reads: up to three digits, and at most 255. -/
def octet (strict : Bool) (text : List Byte) : Option Byte :=
  match Lib.readNumeral 10 Detail.decimalValue text with
  | some n =>
    if text.length ≤ 3 ∧ n ≤ 255 ∧ ¬(strict = true ∧ text.head? = some 48 ∧ text.length ≠ 1) then some (UInt8.ofNat n)
    else none
  | none => none

def inetPton (strict : Bool) (text : List Byte) : Option InAddr :=
  match (text.splitOn 46).map (octet strict) with
  | [some a, some b, some c, some d] => some ⟨a, b, c, d⟩
  | _ => none

/-- What `socketOps::toIp` leaves in a buffer of `size` bytes that held the empty string. -/
def socketToIp (size : Nat) (addr : InetAddress) : Except Fault (List Byte) :=
  if addr.family = AF_INET then
    if INET_ADDRSTRLEN ≤ size then .ok (if (dotted addr.addr).length < size then dotted addr.addr else [])
    else .error .toIp
  else .ok []

def socketToIpPort (size : Nat) (addr : InetAddress) : Except Fault (List Byte) := do
  let buf ← socketToIp size addr
  let port := networkToHost16 addr.port
  if buf.length < size then .ok (buf ++ (58 :: number port.toNat).take (size - buf.length - 1))
  else .error .toIpPort

def fromIpPort (strict : Bool) (ip : LogStream.CString) (port : UInt16) (addr : InetAddress) : InetAddress :=
  { family := AF_INET
    port := hostToNetwork16 port
    -- a text that is not understood is only logged
    addr := (inetPton strict ip.chars).getD addr.addr }

/-- `InetAddress(uint16_t port, bool loopbackOnly)`. -/
def ofPort (port : UInt16) (loopbackOnly : Bool) : InetAddress :=
  { family := AF_INET
    addr := hostToNetwork32 (if loopbackOnly then INADDR_LOOPBACK else INADDR_ANY)
    port := hostToNetwork16 port }

/-- `InetAddress(const char* ip, uint16_t port)`. -/
def ofText (strict : Bool) (ip : LogStream.CString) (port : UInt16) : InetAddress := fromIpPort strict ip port {}

def toIp (addr : InetAddress) : Except Fault (List Byte) := socketToIp 64 addr

def toIpPort (addr : InetAddress) : Except Fault (List Byte) := socketToIpPort 64 addr

def hostPort (addr : InetAddress) : UInt16 := networkToHost16 addr.port

/-! ### Numbers -/

theorem number_digit {n : Nat} {c : Byte} (member : c ∈ number n) : 48 ≤ c.toNat ∧ c.toNat ≤ 57 := by
  rw [number, Lib.numeral, List.mem_reverse] at member
  obtain ⟨d, digit, rfl⟩ := List.mem_map.mp member
  have small := Lib.lowDigits_lt (by decide) d digit
  rw [LogStream.decimalDigit, UInt8.toNat_ofNat_of_lt' (by change 48 + d < 256; omega)]
  omega

theorem number_lacks {n : Nat} {c : Byte} (other : c.toNat < 48 ∨ 57 < c.toNat) : c ∉ number n := by
  intro member
  have digit := number_digit member
  omega

theorem number_length {n k : Nat} (positive : 0 < k) (small : n < 10 ^ k) : (number n).length ≤ k := by
  rw [number, Lib.numeral_length]
  exact Lib.lowDigits_length_le (by decide) positive small

theorem number_inj {n m : Nat} (same : number n = number m) : n = m := by
  have first := (Detail.isNumeral_ten n).reads
  have second := (Detail.isNumeral_ten m).reads
  rw [number, number] at same
  rw [same, second] at first
  exact (Option.some.inj first).symm

theorem octet_number (strict : Bool) (byte : Byte) : octet strict (number byte.toNat) = some byte := by
  have numeral := Detail.isNumeral_ten byte.toNat
  have small : byte.toNat < 256 := byte.toNat_lt
  have short : (number byte.toNat).length ≤ 3 := number_length (by decide) (Nat.lt_trans small (by decide))
  rw [octet, number, numeral.reads]
  dsimp only
  rw [if_pos, UInt8.ofNat_toNat]
  refine ⟨short, Nat.le_of_lt_succ small, ?_⟩
  rintro ⟨_, zero, longer⟩
  obtain ⟨rest, text⟩ := List.head?_eq_some_iff.mp zero
  have alone := numeral.no_leading_zero 48 rest text rfl
  rw [text, alone] at longer
  exact longer rfl

/-! ### Addresses -/

theorem inetPton_dotted (strict : Bool) (addr : InAddr) : inetPton strict (dotted addr) = some addr := by
  have undotted : ∀ n, (46 : Byte) ∉ number n := fun n => number_lacks (.inl (by decide))
  rw [inetPton, dotted, List.splitOn_append_cons_self_of_not_mem (undotted _),
    List.splitOn_append_cons_self_of_not_mem (undotted _), List.splitOn_append_cons_self_of_not_mem (undotted _),
    List.splitOn_eq_singleton (undotted _)]
  simp only [List.map_cons, List.map_nil, octet_number]

theorem networkToHost16_host (port : UInt16) : networkToHost16 (hostToNetwork16 port) = port := by
  have small : port.toNat < 65536 := port.toNat_lt
  rw [← UInt16.toNat_inj, networkToHost16, hostToNetwork16, UInt16.toNat_ofNat', UInt8.toNat_ofNat', UInt8.toNat_ofNat']
  omega

theorem hostToNetwork16_net (port : InPort) : hostToNetwork16 (networkToHost16 port) = port := by
  have high : port.high.toNat < 256 := port.high.toNat_lt
  have low : port.low.toNat < 256 := port.low.toNat_lt
  have value : (networkToHost16 port).toNat = port.high.toNat * 256 + port.low.toNat := by
    rw [networkToHost16, UInt16.toNat_ofNat']
    omega
  obtain ⟨first, second⟩ := port
  rw [hostToNetwork16, value, InPort.mk.injEq]
  constructor
  · rw [← UInt8.toNat_inj, UInt8.toNat_ofNat']
    dsimp only at high low ⊢
    omega
  · rw [← UInt8.toNat_inj, UInt8.toNat_ofNat']
    dsimp only at high low ⊢
    omega

theorem dotted_length (addr : InAddr) : (dotted addr).length ≤ 15 := by
  have short : ∀ byte : Byte, (number byte.toNat).length ≤ 3 := fun byte =>
    number_length (by decide) (Nat.lt_trans byte.toNat_lt (by decide))
  have first := short addr.a
  have second := short addr.b
  have third := short addr.c
  have fourth := short addr.d
  simp only [dotted, List.length_append, List.length_cons]
  omega

theorem dotted_lacks {c : Byte} (other : c.toNat < 46 ∨ 57 < c.toNat) (addr : InAddr) : c ∉ dotted addr := by
  have absent : ∀ n, c ∉ number n := fun n => number_lacks (by omega)
  have dot : c ≠ 46 := by
    rintro rfl
    revert other
    decide
  simp [dotted, absent, dot]

theorem toIp_eq {addr : InetAddress} (inet : addr.family = AF_INET) : addr.toIp = .ok (dotted addr.addr) := by
  have short := dotted_length addr.addr
  rw [toIp, socketToIp, if_pos inet, if_pos (by decide), if_pos (by omega)]

theorem toIpPort_eq {addr : InetAddress} (inet : addr.family = AF_INET) :
    addr.toIpPort = .ok (dotted addr.addr ++ 58 :: number addr.hostPort.toNat) := by
  have short := dotted_length addr.addr
  have digits : (number addr.hostPort.toNat).length ≤ 5 :=
    number_length (by decide) (Nat.lt_trans addr.hostPort.toNat_lt (by decide))
  have ip : socketToIp 64 addr = .ok (dotted addr.addr) := toIp_eq inet
  rw [toIpPort, socketToIpPort, ip, Lib.ok_bind, if_pos (by omega), List.take_of_length_le]
  · rfl
  · rw [List.length_cons]
    change (number addr.hostPort.toNat).length + 1 ≤ _
    omega

theorem toIpPort_inj {addr other : InetAddress} (inet : addr.family = AF_INET) (inet' : other.family = AF_INET)
    (same : other.toIpPort = addr.toIpPort) : other = addr := by
  rw [toIpPort_eq inet, toIpPort_eq inet', Except.ok.injEq] at same
  -- the colon is in neither part, so the texts are cut at the same place
  have cut : ∀ a : InetAddress, (dotted a.addr ++ 58 :: number a.hostPort.toNat).splitOn 58 =
      [dotted a.addr, number a.hostPort.toNat] := by
    intro a
    rw [List.splitOn_append_cons_self_of_not_mem (dotted_lacks (.inr (by decide)) a.addr),
      List.splitOn_eq_singleton (number_lacks (.inr (by decide)))]
  have parts := congrArg (List.splitOn 58) same
  rw [cut, cut, List.cons.injEq, List.cons.injEq] at parts
  obtain ⟨ip, port, _⟩ := parts
  have addrs := congrArg (inetPton true) ip
  rw [inetPton_dotted, inetPton_dotted, Option.some.injEq] at addrs
  have ports := congrArg hostToNetwork16 (UInt16.toNat_inj.mp (number_inj port))
  rw [hostPort, hostPort, hostToNetwork16_net, hostToNetwork16_net] at ports
  cases addr
  cases other
  dsimp only at inet inet' addrs ports
  rw [inet, inet', addrs, ports]

/-- Reading the text of an address gives it back, and different addresses have different texts. A text that is not the
text of an address is not given back, and one that `inet_pton` refuses stands for every address of the host. -/
theorem texts_give_addresses (strict : Bool) :
    (∀ addr : InetAddress, addr.family = AF_INET →
      (∃ ip, addr.toIp = .ok ip.chars ∧ ofText strict ip addr.hostPort = addr) ∧
      (∃ text, addr.toIpPort = .ok text ∧ text.length ≤ 21) ∧
      ∀ other : InetAddress, other.family = AF_INET → other.toIpPort = addr.toIpPort → other = addr) ∧
    ∀ (ip : LogStream.CString) (port : UInt16), (ofText strict ip port).hostPort = port ∧
      ((ofText strict ip port).toIp = .ok ip.chars ↔ ∃ addr, ip.chars = dotted addr) ∧
      (inetPton strict ip.chars = none → ofText strict ip port = ofPort port false) := by
  refine ⟨fun addr inet => ⟨?_, ?_, fun other inet' => toIpPort_inj inet inet'⟩, fun ip port => ⟨?_, ?_, ?_⟩⟩
  · refine ⟨⟨dotted addr.addr, dotted_lacks (.inl (by decide)) addr.addr⟩, toIp_eq inet, ?_⟩
    rw [ofText, fromIpPort, inetPton_dotted, hostPort, hostToNetwork16_net, ← inet]
    rfl
  · refine ⟨_, toIpPort_eq inet, ?_⟩
    have ip := dotted_length addr.addr
    have digits : (number addr.hostPort.toNat).length ≤ 5 :=
      number_length (by decide) (Nat.lt_trans addr.hostPort.toNat_lt (by decide))
    rw [List.length_append, List.length_cons]
    omega
  · exact networkToHost16_host port
  · rw [toIp_eq (show (ofText strict ip port).family = AF_INET from rfl), Except.ok.injEq]
    constructor
    · exact fun same => ⟨_, same.symm⟩
    · rintro ⟨addr, text⟩
      rw [ofText, fromIpPort, text, inetPton_dotted]
      rfl
  · intro refused
    rw [ofText, fromIpPort, refused]
    rfl

example : (ofText true ⟨literal "127.0.0.1", by decide⟩ 8001).toIpPort =
    .ok (literal "127.0.0.1:8001") := by decide +kernel

-- listens on every interface
example : (ofText true ⟨literal "localhost", by decide⟩ 8001).toIpPort =
    .ok (literal "0.0.0.0:8001") := by decide +kernel

end InetAddress

end Dserver.Net
