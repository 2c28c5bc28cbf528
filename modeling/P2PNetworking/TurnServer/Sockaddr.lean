/-
# Socket addresses as the kernel keeps them

The C structures behind `SockaddrStorage`, byte by byte, on a machine of either byte order.
Port and IPv4 address are converted to big-endian before they are stored, the other fields
stand as the machine has them.  An IPv6 address is written with its flow label and its
scope, and read back without them.
-/

import P2PNetworking.TurnServer.BufferPool
import P2PNetworking.Net.AddrText
import P2PNetworking.Lib.Bytes

namespace P2PNetworking.TurnServer

open P2PNetworking.Net P2PNetworking.Lib
open P2PNetworking.Common (toBeBytes fromBeBytes fromBeBytes_toBeBytes)

/-! ## Byte order -/

section ByteOrder

variable (endian : Endian)

/-- `u16::to_be`, and `u16::from_be`. -/
def toBe16 (n : UInt16) : UInt16 := .ofNat (endian.toBe 2 n.toNat)

/-- `u32::to_be`, and `u32::from_be`. -/
def toBe32 (n : UInt32) : UInt32 := .ofNat (endian.toBe 4 n.toNat)

theorem toNat_toBe16 (n : UInt16) : (toBe16 endian n).toNat = endian.toBe 2 n.toNat := by
  rw [toBe16, UInt16.toNat_ofNat']
  exact Nat.mod_eq_of_lt (endian.toBe_lt n.toNat_lt)

theorem toNat_toBe32 (n : UInt32) : (toBe32 endian n).toNat = endian.toBe 4 n.toNat := by
  rw [toBe32, UInt32.toNat_ofNat']
  exact Nat.mod_eq_of_lt (endian.toBe_lt n.toNat_lt)

@[simp]
theorem toBe16_toBe16 (n : UInt16) : toBe16 endian (toBe16 endian n) = n := by
  rw [← UInt16.toNat_inj, toNat_toBe16, toNat_toBe16, endian.toBe_toBe n.toNat_lt]

@[simp]
theorem toBe32_toBe32 (n : UInt32) : toBe32 endian (toBe32 endian n) = n := by
  rw [← UInt32.toNat_inj, toNat_toBe32, toNat_toBe32, endian.toBe_toBe n.toNat_lt]

/-- A `u16` in memory. -/
def store16 (n : UInt16) : List UInt8 := endian.store 2 n.toNat

def load16 (bytes : List UInt8) : UInt16 := .ofNat (endian.load bytes)

/-- A `u32` in memory. -/
def store32 (n : UInt32) : List UInt8 := endian.store 4 n.toNat

def load32 (bytes : List UInt8) : UInt32 := .ofNat (endian.load bytes)

@[simp]
theorem length_store16 (n : UInt16) : (store16 endian n).length = 2 := endian.length_store 2 _

@[simp]
theorem length_store32 (n : UInt32) : (store32 endian n).length = 4 := endian.length_store 4 _

@[simp]
theorem load16_store16 (n : UInt16) : load16 endian (store16 endian n) = n := by
  rw [load16, store16, endian.load_store n.toNat_lt, UInt16.ofNat_toNat]

@[simp]
theorem load32_store32 (n : UInt32) : load32 endian (store32 endian n) = n := by
  rw [load32, store32, endian.load_store n.toNat_lt, UInt32.ofNat_toNat]

/-- A converted port stands in memory as on every other machine, -/
theorem store16_toBe16 (port : UInt16) : store16 endian (toBe16 endian port) = portToBe port := by
  have hspell : spell 2 port.toNat = [.ofNat port.toNat, .ofNat (port.toNat / 2 ^ 8)] := rfl
  rw [store16, toNat_toBe16, endian.store_toBe, Endian.store, hspell]
  rfl

/-- and so does a converted IPv4 address. -/
theorem store32_toBe32 (ip : UInt32) : store32 endian (toBe32 endian ip) = toBeBytes ip := by
  have hspell : spell 4 ip.toNat = [.ofNat ip.toNat, .ofNat (ip.toNat / 2 ^ 8),
      .ofNat (ip.toNat / 2 ^ 16), .ofNat (ip.toNat / 2 ^ 24)] := by
    simp [spell, Nat.div_div_eq_div_mul]
  rw [store32, toNat_toBe32, endian.store_toBe, Endian.store, hspell]
  rfl

end ByteOrder

/-! ## The structures -/

/-- `AF_INET`. -/
def afInet : UInt16 := 2

/-- `AF_INET6`. -/
def afInet6 : UInt16 := 10

/-- `sockaddr_in` without `sin_zero`. -/
structure SockaddrIn where
  sinFamily : UInt16
  sinPort : UInt16
  sAddr : UInt32
  deriving DecidableEq

/-- `sockaddr_in6`. -/
structure SockaddrIn6 where
  sin6Family : UInt16
  sin6Port : UInt16
  sin6Flowinfo : UInt32
  s6Addr : Vector UInt8 16
  sin6ScopeId : UInt32
  deriving DecidableEq

section Layout

variable (endian : Endian)

/-- Sixteen bytes; the last eight are `sin_zero`. -/
def SockaddrIn.store (sin : SockaddrIn) : List UInt8 :=
  store16 endian sin.sinFamily ++ store16 endian sin.sinPort ++ store32 endian sin.sAddr ++
    List.replicate 8 0

/-- `*(storage as *const sockaddr_in)`. -/
def SockaddrIn.load (storage : List UInt8) : SockaddrIn where
  sinFamily := load16 endian (slice 0 2 storage)
  sinPort := load16 endian (slice 2 2 storage)
  sAddr := load32 endian (slice 4 4 storage)

/-- Twenty-eight bytes. -/
def SockaddrIn6.store (sin6 : SockaddrIn6) : List UInt8 :=
  store16 endian sin6.sin6Family ++ store16 endian sin6.sin6Port ++
    store32 endian sin6.sin6Flowinfo ++ sin6.s6Addr.toList ++ store32 endian sin6.sin6ScopeId

/-- `*(storage as *const sockaddr_in6)`. -/
def SockaddrIn6.load (storage : List UInt8) : SockaddrIn6 where
  sin6Family := load16 endian (slice 0 2 storage)
  sin6Port := load16 endian (slice 2 2 storage)
  sin6Flowinfo := load32 endian (slice 4 4 storage)
  s6Addr := .ofFn fun i => (slice 8 16 storage).getD i 0
  sin6ScopeId := load32 endian (slice 24 4 storage)

/-- A structure is read back from where it was written, whatever stands behind it. -/
theorem SockaddrIn.load_store (sin : SockaddrIn) (rest : List UInt8) :
    SockaddrIn.load endian (sin.store endian ++ rest) = sin := by
  simp [load, store, slice_zero, slice_append]

theorem SockaddrIn6.load_store (sin6 : SockaddrIn6) (rest : List UInt8) :
    SockaddrIn6.load endian (sin6.store endian ++ rest) = sin6 := by
  simp [load, store, slice_zero, slice_append]

end Layout

/-! ## There and back -/

/-- `std::mem::zeroed()`. -/
def zeroedStorage : List UInt8 := List.replicate SockaddrStorage.size 0

/-- `std::ptr::write` at the front of the storage. -/
def overwrite (storage bytes : List UInt8) : List UInt8 := bytes ++ storage.drop bytes.length

section Native

variable (endian : Endian)

/-- `write_socket_addr`, with the length of the structure written. -/
def writeSocketAddrNative (storage : List UInt8) : SocketAddr → List UInt8 × ℕ
  | .v4 ip port =>
      let sin : SockaddrIn := ⟨afInet, toBe16 endian port, toBe32 endian ip⟩
      (overwrite storage (sin.store endian), 16)
  | .v6 ip port flowinfo scopeId =>
      let sin6 : SockaddrIn6 := ⟨afInet6, toBe16 endian port, flowinfo, ip, scopeId⟩
      (overwrite storage (sin6.store endian), 28)

/-- `ss_family`, the first field of every structure. -/
def ssFamily (storage : List UInt8) : UInt16 := load16 endian (slice 0 2 storage)

/-- `extract_src_addr`. -/
def extractSrcAddrNative (storage : List UInt8) : SocketAddr :=
  if ssFamily endian storage = afInet then
    let sin := SockaddrIn.load endian storage
    .v4 (toBe32 endian sin.sAddr) (toBe16 endian sin.sinPort)
  else if ssFamily endian storage = afInet6 then
    let sin6 := SockaddrIn6.load endian storage
    .v6 sin6.s6Addr (toBe16 endian sin6.sin6Port) 0 0
  else .unspecified

@[simp]
theorem ssFamily_sockaddrIn (sin : SockaddrIn) (rest : List UInt8) :
    ssFamily endian (sin.store endian ++ rest) = sin.sinFamily :=
  congrArg SockaddrIn.sinFamily (SockaddrIn.load_store endian sin rest)

@[simp]
theorem ssFamily_sockaddrIn6 (sin6 : SockaddrIn6) (rest : List UInt8) :
    ssFamily endian (sin6.store endian ++ rest) = sin6.sin6Family :=
  congrArg SockaddrIn6.sin6Family (SockaddrIn6.load_store endian sin6 rest)

/-- The address that stands in the storage, with all its fields. -/
def storedAddr (storage : List UInt8) : SocketAddr :=
  if ssFamily endian storage = afInet then
    let sin := SockaddrIn.load endian storage
    .v4 (toBe32 endian sin.sAddr) (toBe16 endian sin.sinPort)
  else if ssFamily endian storage = afInet6 then
    let sin6 := SockaddrIn6.load endian storage
    .v6 sin6.s6Addr (toBe16 endian sin6.sin6Port) sin6.sin6Flowinfo sin6.sin6ScopeId
  else .unspecified

/-- What is written is the address, on every machine and whatever was there before. -/
@[simp]
theorem storedAddr_write (storage : List UInt8) (addr : SocketAddr) :
    storedAddr endian (writeSocketAddrNative endian storage addr).1 = addr := by
  cases addr with
  | v4 ip port =>
      simp [writeSocketAddrNative, storedAddr, overwrite, SockaddrIn.load_store]
  | v6 ip port flowinfo scopeId =>
      have hfamily : afInet6 ≠ afInet := by decide
      simp [writeSocketAddrNative, storedAddr, overwrite, SockaddrIn6.load_store, hfamily]

/-- What is read is the address without flow label and scope. -/
theorem extractSrcAddrNative_eq (storage : List UInt8) :
    extractSrcAddrNative endian storage = unscoped (storedAddr endian storage) := by
  unfold extractSrcAddrNative storedAddr
  split
  · rfl
  · split
    · rfl
    · rfl

/-! ## The two levels -/

/-- A storage in memory. -/
def SockaddrStorage.bytes : SockaddrStorage → List UInt8
  | .zeroed => zeroedStorage
  | .inet sinPort sAddr => overwrite zeroedStorage
      (store16 endian afInet ++ sinPort ++ sAddr ++ List.replicate 8 0)
  | .inet6 sin6Port sin6Flowinfo s6Addr sin6ScopeId => overwrite zeroedStorage
      (store16 endian afInet6 ++ sin6Port ++ store32 endian sin6Flowinfo ++ s6Addr.toList ++
        store32 endian sin6ScopeId)

/-- What the server's model writes is what the code writes into a zeroed slot, -/
theorem writeSocketAddrNative_zeroed (addr : SocketAddr) :
    writeSocketAddrNative endian zeroedStorage addr =
      ((writeSocketAddr addr).1.bytes endian, (writeSocketAddr addr).2) := by
  cases addr with
  | v4 ip port =>
      simp only [writeSocketAddrNative, writeSocketAddr, SockaddrStorage.bytes, SockaddrIn.store,
        store16_toBe16, store32_toBe32]
  | v6 ip port flowinfo scopeId =>
      simp only [writeSocketAddrNative, writeSocketAddr, SockaddrStorage.bytes, SockaddrIn6.store,
        store16_toBe16]

/-- and it reads from it what the code reads. -/
theorem extractSrcAddrNative_bytes (addr : SocketAddr) :
    extractSrcAddrNative endian ((writeSocketAddr addr).1.bytes endian) =
      extractSrcAddr (writeSocketAddr addr).1 := by
  have hbytes : (writeSocketAddrNative endian zeroedStorage addr).1 =
      (writeSocketAddr addr).1.bytes endian :=
    congrArg Prod.fst (writeSocketAddrNative_zeroed endian addr)
  rw [← hbytes, extractSrcAddrNative_eq, storedAddr_write, extractSrcAddr_writeSocketAddr]

/-- A slot that has not been filled reads as no address. -/
theorem extractSrcAddrNative_zeroed :
    extractSrcAddrNative endian (SockaddrStorage.zeroed.bytes endian) =
      extractSrcAddr .zeroed := by
  cases endian <;> rfl

end Native

/-! ## Which addresses survive -/

/-- `SocketAddrV6::scope_id`; an IPv4 address has none. -/
def scopeId : SocketAddr → UInt32
  | .v4 _ _ => 0
  | .v6 _ _ _ scopeId => scopeId

/-- On machines of either byte order, the address written into a zeroed slot is read back
as it is, and is the one that a send finds there. -/
structure SurvivesKernel (addr : SocketAddr) : Prop where
  source : ∀ endian,
    extractSrcAddrNative endian (writeSocketAddrNative endian zeroedStorage addr).1 = addr
  destination : ∀ endian,
    storedAddr endian (writeSocketAddrNative endian zeroedStorage addr).1 = addr

/-- An address in a request survives exactly when it has no scope. -/
theorem survivesKernel_iff {text : List UInt8} {addr : SocketAddr}
    (hparse : SocketAddr.fromStr text = some addr) : SurvivesKernel addr ↔ scopeId addr = 0 := by
  have hsource : ∀ endian,
      extractSrcAddrNative endian (writeSocketAddrNative endian zeroedStorage addr).1 =
        unscoped addr := by
    intro endian
    rw [extractSrcAddrNative_eq, storedAddr_write]
  have hsame : unscoped addr = addr ↔ scopeId addr = 0 := by
    cases addr with
    | v4 ip port => simp [unscoped, scopeId]
    | v6 ip port flowinfo scope =>
        obtain rfl := flowinfo_of_fromStr hparse
        simp [unscoped, scopeId, eq_comm]
  rw [← hsame]
  constructor
  · intro h
    rw [← hsource .little]
    exact h.source .little
  · intro h
    exact ⟨fun endian => (hsource endian).trans h, fun endian => storedAddr_write endian _ _⟩

/-- `[fe80::1]:9` with a scope. -/
def linkLocal (scope : UInt32) : SocketAddr :=
  .v6 #v[0xfe, 0x80, 0, 0, 0, 0, 0, 0, 0, 0, 0, 0, 0, 0, 0, 1] 9 0 scope

theorem survivesKernel_iff_linkLocal : SurvivesKernel (linkLocal 0) ↔ scopeId (linkLocal 0) = 0 :=
  have hparse : SocketAddr.fromStr "[fe80::1]:9".toUTF8.toList = some (linkLocal 0) := by
    decide +kernel
  survivesKernel_iff hparse

/-- A scope in a request is lost. -/
theorem scope_is_lost :
    SocketAddr.fromStr "[fe80::1%2]:9".toUTF8.toList = some (linkLocal 2) ∧
      ¬ SurvivesKernel (linkLocal 2) := by
  have hread : extractSrcAddrNative .little
      (writeSocketAddrNative .little zeroedStorage (linkLocal 2)).1 ≠ linkLocal 2 := by
    decide +kernel
  exact ⟨by decide +kernel, fun h => hread (h.source .little)⟩

end P2PNetworking.TurnServer
