import TcpIp.Free.InCksum
import TcpIp.Lib.Buffer

/-!
# Writing a UDP datagram

`udp_write` puts an IP and a UDP header in front of some data.  The checksum of UDP covers
a pseudo header that is never sent: the function fills in a `struct udpiphdr`, which lies
over both headers and holds the fields of the pseudo header in other places than these,
takes the checksum over that, and then writes the IP header over it.

`struct udpiphdr` consists of nine bytes of zero, the protocol, a length and the two
addresses, in twenty bytes, and the UDP header in eight.

## Main definitions

* `udpWrite` — the packet that `udp_write` hands to `Sendto`.
* `pseudoHeader` — the pseudo header.

## Main results

* `udpWrite_eq` — the packet, field by field.
* `udpWrite_valid` — **the datagram is valid**: its checksum, the pseudo header, the UDP
  header and the data add up to `0xffff`.
-/

namespace TcpIp.Udpcksum

open Buffer Bytes Free OnesComplement

def ipprotoUdp : UInt8 := 17

/-- `TTL_OUT`. -/
def ttlOut : UInt8 := 64

/-! ### The function -/

/-- The addresses and ports of `local` and `dest`. -/
structure Ends where
  src : UInt32
  dst : UInt32
  sport : UInt16
  dport : UInt16
  deriving DecidableEq, Repr

/-- The machine: its byte order, and whether it takes the length of the IP datagram in
network byte order. -/
structure Host where
  order : Order
  netLen : Bool
  deriving DecidableEq, Repr

/-- What is stored of an IPv4 address. -/
def inAddr (addr : UInt32) : List UInt8 := Order.big.enc 4 addr.toNat

/-- `htons`, as it is stored. -/
def htons (n : ℕ) : List UInt8 := Order.big.enc 2 n

/-- `udp_write` up to the checksum. -/
def fillUdp (e : Ends) (buf : List UInt8) (userlen : ℕ) : List UInt8 :=
  let ui := writeAt buf 0 (List.replicate 28 0)
  let ui := writeAt ui 10 (htons (8 + userlen))
  let ui := writeAt ui 9 [ipprotoUdp]
  let ui := writeAt ui 12 (inAddr e.src)
  let ui := writeAt ui 16 (inAddr e.dst)
  let ui := writeAt ui 20 (htons e.sport.toNat)
  let ui := writeAt ui 22 (htons e.dport.toNat)
  -- `ui_ulen = ui_len`
  writeAt ui 24 (slice ui 10 2)

/-- The checksum over the first `userlen` bytes. -/
def storeSum (o : Order) (ui : List UInt8) (userlen : ℕ) : List UInt8 :=
  let sum := inCksum o (ui.take userlen)
  let ui := writeAt ui 26 (o.enc 2 sum.toNat)
  if sum = 0 then writeAt ui 26 (o.enc 2 0xffff) else ui

/-- The rest of the IP header. -/
def fillIp (h : Host) (ip : List UInt8) (userlen : ℕ) : List UInt8 :=
  -- `ip_v` and `ip_hl`
  let ip := writeAt ip 0 [0x45]
  let ip := writeAt ip 1 [0]
  let ip := writeAt ip 2 (if h.netLen then htons userlen else h.order.enc 2 userlen)
  let ip := writeAt ip 4 [0, 0]
  let ip := writeAt ip 6 [0, 0]
  writeAt ip 8 [ttlOut]

/-- `udp_write`: what is handed to `Sendto`. -/
def udpWrite (h : Host) (zerosum : Bool) (e : Ends) (buf : List UInt8) (userlen : ℕ) :
    List UInt8 :=
  let ui := fillUdp e buf userlen
  let userlen := userlen + 28
  let ui := if zerosum then ui else storeSum h.order ui userlen
  (fillIp h ui userlen).take userlen

/-! ### What is sent -/

/-- The pseudo header. -/
def pseudoHeader (e : Ends) (ulen : ℕ) : List UInt8 :=
  inAddr e.src ++ (inAddr e.dst ++ ([0, ipprotoUdp] ++ htons ulen))

/-- The UDP header with the checksum `sum`. -/
def udpHeader (e : Ends) (ulen : ℕ) (sum : List UInt8) : List UInt8 :=
  htons e.sport.toNat ++ (htons e.dport.toNat ++ (htons ulen ++ sum))

/-- The overlay with the checksum `sum`. -/
def overlay (e : Ends) (ulen : ℕ) (sum : List UInt8) : List UInt8 :=
  List.replicate 9 0 ++ ([ipprotoUdp] ++ (htons ulen ++ (inAddr e.src ++ (inAddr e.dst ++
    udpHeader e ulen sum))))

/-- A packet that starts with the nine bytes `start`. -/
def packet (start : List UInt8) (e : Ends) (ulen : ℕ) (sum data : List UInt8) : List UInt8 :=
  start ++ ([ipprotoUdp] ++ (htons ulen ++ (inAddr e.src ++ (inAddr e.dst ++
    (udpHeader e ulen sum ++ data)))))

@[simp] theorem length_inAddr (addr : UInt32) : (inAddr addr).length = 4 := Order.length_enc

@[simp] theorem length_htons (n : ℕ) : (htons n).length = 2 := Order.length_enc

section Fill

variable {e : Ends} {h : Host} {hdr data sum sum' : List UInt8} {n : ℕ}

/-- Bytes that can be told apart, so that the fields can be counted off. -/
theorem exists_cells : (∃ a b c d, inAddr e.src = [a, b, c, d]) ∧
    (∃ a b c d, inAddr e.dst = [a, b, c, d]) ∧ (∃ a b, htons e.sport.toNat = [a, b]) ∧
    (∃ a b, htons e.dport.toNat = [a, b]) ∧ ∃ a b, htons n = [a, b] :=
  ⟨⟨_, _, _, _, rfl⟩, ⟨_, _, _, _, rfl⟩, ⟨_, _, rfl⟩, ⟨_, _, rfl⟩, ⟨_, _, rfl⟩⟩

/-- The overlay is the packet without the start of the IP header. -/
theorem overlay_append (ulen : ℕ) :
    overlay e ulen sum ++ data = packet (List.replicate 9 0) e ulen sum data := by
  simp only [overlay, packet, List.append_assoc]

/-- What the checksum is taken over. -/
theorem fillUdp_eq (hhdr : hdr.length = 28) (userlen : ℕ) :
    fillUdp e (hdr ++ data) userlen = overlay e (8 + userlen) [0, 0] ++ data := by
  have hdata : (hdr ++ data).drop 28 = data := List.drop_left' hhdr
  obtain ⟨⟨s₀, s₁, s₂, s₃, hsrc⟩, ⟨d₀, d₁, d₂, d₃, hdst⟩, ⟨p₀, p₁, hsport⟩, ⟨q₀, q₁, hdport⟩,
    l₀, l₁, hlen⟩ := @exists_cells e (8 + userlen)
  simp [fillUdp, overlay, udpHeader, hdata, hsrc, hdst, hsport, hdport, hlen, writeAt, slice,
    List.replicate_succ]

/-- The checksum is stored in its place. -/
theorem writeAt_overlay (hsum : sum.length = 2) (hsum' : sum'.length = 2) (ulen : ℕ) :
    writeAt (overlay e ulen sum ++ data) 26 sum' = overlay e ulen sum' ++ data := by
  obtain ⟨⟨s₀, s₁, s₂, s₃, hsrc⟩, ⟨d₀, d₁, d₂, d₃, hdst⟩, ⟨p₀, p₁, hsport⟩, ⟨q₀, q₁, hdport⟩,
    l₀, l₁, hlen⟩ := @exists_cells e ulen
  obtain ⟨a, b, rfl⟩ := List.length_eq_two.mp hsum
  obtain ⟨c, d, rfl⟩ := List.length_eq_two.mp hsum'
  simp [overlay, udpHeader, hsrc, hdst, hsport, hdport, hlen, writeAt, List.replicate_succ]

@[simp] theorem length_overlay (ulen : ℕ) (hsum : sum.length = 2) :
    (overlay e ulen sum).length = 28 := by
  simp [overlay, udpHeader, hsum]

/-- The checksum as it is stored. -/
def sumField (o : Order) (bs : List UInt8) : List UInt8 :=
  o.enc 2 (if inCksum o bs = 0 then 0xffff else (inCksum o bs).toNat)

@[simp] theorem length_sumField (o : Order) (bs : List UInt8) : (sumField o bs).length = 2 :=
  Order.length_enc

theorem storeSum_eq (o : Order) (ulen : ℕ) :
    storeSum o (overlay e ulen [0, 0] ++ data) (data.length + 28) =
      overlay e ulen (sumField o (overlay e ulen [0, 0] ++ data)) ++ data := by
  have hall : (overlay e ulen [0, 0] ++ data).take (data.length + 28) =
      overlay e ulen [0, 0] ++ data := by
    refine List.take_of_length_le ?_
    rw [List.length_append, length_overlay ulen rfl]
    omega
  simp only [storeSum, hall, sumField]
  split
  · rw [writeAt_overlay rfl Order.length_enc, writeAt_overlay Order.length_enc Order.length_enc]
  · rw [writeAt_overlay rfl Order.length_enc]

/-- The IP header up to the time to live. -/
def ipStart (h : Host) (len : ℕ) : List UInt8 :=
  [0x45, 0] ++ ((if h.netLen then htons len else h.order.enc 2 len) ++ [0, 0, 0, 0, ttlOut])

@[simp] theorem length_ipStart (len : ℕ) : (ipStart h len).length = 9 := by
  unfold ipStart
  split <;> simp

/-- The IP header is written over the zeros in front of the protocol. -/
theorem fillIp_eq (rest : List UInt8) (len : ℕ) :
    fillIp h (List.replicate 9 0 ++ rest) len = ipStart h len ++ rest := by
  have hlen : (if h.netLen then htons len else h.order.enc 2 len).length = 2 := by
    split <;> exact Order.length_enc
  obtain ⟨a, b, hab⟩ := List.length_eq_two.mp hlen
  simp [fillIp, ipStart, hab, writeAt, List.replicate_succ]

/-- **The packet, field by field.** -/
theorem udpWrite_eq (hhdr : hdr.length = 28) :
    udpWrite h false e (hdr ++ data) data.length =
      packet (ipStart h (data.length + 28)) e (8 + data.length)
        (sumField h.order (overlay e (8 + data.length) [0, 0] ++ data)) data := by
  simp only [udpWrite, fillUdp_eq hhdr, Bool.false_eq_true, if_false, storeSum_eq]
  rw [overlay_append, packet, fillIp_eq, packet]
  refine List.take_of_length_le ?_
  simp only [List.length_append, length_ipStart, List.length_singleton, length_htons,
    length_inAddr, udpHeader, length_sumField]
  omega

end Fill

/-! ### The checksum -/

section Sum

variable {e : Ends} {h : Host} {hdr data sum : List UInt8}

/-- **The overlay adds up to the pseudo header and the UDP header**: the nine zeros in front
of the protocol are four words and the first half of a fifth. -/
theorem total_overlay (ulen : ℕ) : total (words .big (overlay e ulen sum ++ data)) =
    total (words .big (pseudoHeader e ulen ++ (udpHeader e ulen sum ++ data))) := by
  have hzeros : total (words .big (List.replicate 8 0)) = 0 := rfl
  have hsplit : overlay e ulen sum ++ data = List.replicate 8 0 ++ ([0, ipprotoUdp] ++
      (htons ulen ++ (inAddr e.src ++ (inAddr e.dst ++ (udpHeader e ulen sum ++ data))))) := by
    simp [overlay, List.replicate_succ]
  have hproto : ([0, ipprotoUdp] : List UInt8).length % 2 = 0 := rfl
  rw [hsplit, pseudoHeader]
  simp only [List.append_assoc, total_words_append, length_htons, length_inAddr, hproto,
    List.length_replicate, Nat.reduceMod, hzeros]
  omega

/-- The checksum that is sent. -/
theorem sumField_eq (o : Order) {bs : List UInt8} (hlen : bs.length ≤ 131072) :
    sumField o bs = htons (if internetSum bs = 65535 then 65535 else 65535 - internetSum bs) := by
  have hff : o.enc 2 0xffff = Order.big.enc 2 65535 := by cases o <;> rfl
  simp only [sumField, inCksum_eq_zero_iff o hlen, htons]
  split
  · exact hff
  · exact enc_inCksum o hlen

theorem total_words_overlay {v : ℕ} (hv : v ≤ 65535) (ulen : ℕ) :
    total (words .big (overlay e ulen (htons v) ++ data)) =
      total (words .big (overlay e ulen [0, 0] ++ data)) + v := by
  have hsplit : ∀ sum : List UInt8, overlay e ulen sum ++ data =
      overlay e ulen [] ++ (sum ++ data) := by
    intro sum
    simp only [overlay, udpHeader, List.append_assoc, List.nil_append]
  have hhead : (overlay e ulen []).length % 2 = 0 := by simp [overlay, udpHeader]
  have hzero : ([0, 0] : List UInt8) = Order.big.enc 2 0 := rfl
  rw [hsplit, hsplit [0, 0], total_words_append _ _ _ hhead, total_words_append _ _ _ hhead, htons,
    hzero, words_enc_append _ hv, words_enc_append _ (by omega), total, total]
  omega

/-- The checksum makes up what is missing, be it nothing. -/
theorem norm_total_sumField (o : Order) {ulen : ℕ}
    (hlen : (overlay e ulen [0, 0] ++ data).length ≤ 131072) :
    norm 65535 (total (words .big (overlay e ulen
      (sumField o (overlay e ulen [0, 0] ++ data)) ++ data))) = 65535 := by
  rw [sumField_eq o hlen, internetSum_eq]
  generalize htotal : total (words .big (overlay e ulen [0, 0] ++ data)) = t
  split
  · next hfull =>
    rw [total_words_overlay (by omega), htotal, ← norm_norm_add, hfull]
    rfl
  · rw [total_words_overlay (by omega), htotal]
    exact norm_add_compl (by omega) t

end Sum

/-! ### The datagram -/

/-- The packet is a UDP datagram with these ends and data. -/
structure Valid (e : Ends) (data pkt : List UInt8) : Prop where
  length : pkt.length = 28 + data.length
  proto : byte pkt 9 = 17
  src : slice pkt 12 4 = inAddr e.src
  dst : slice pkt 16 4 = inAddr e.dst
  sport : get .big pkt 20 2 = e.sport.toNat
  dport : get .big pkt 22 2 = e.dport.toNat
  ulen : get .big pkt 24 2 = 8 + data.length
  payload : pkt.drop 28 = data
  /-- A checksum of zero would mean that there is none. -/
  sum_ne : get .big pkt 26 2 ≠ 0
  sum : internetSum (pseudoHeader e (8 + data.length) ++ pkt.drop 20) = 0xffff

section Valid

variable {e : Ends} {h : Host} {hdr data start sum : List UInt8} {ulen : ℕ}

/-- Where the fields of a packet stand. -/
theorem packet_fields (hstart : start.length = 9) (hsum : sum.length = 2) :
    byte (packet start e ulen sum data) 9 = 17 ∧
    slice (packet start e ulen sum data) 12 4 = inAddr e.src ∧
    slice (packet start e ulen sum data) 16 4 = inAddr e.dst ∧
    slice (packet start e ulen sum data) 20 2 = htons e.sport.toNat ∧
    slice (packet start e ulen sum data) 22 2 = htons e.dport.toNat ∧
    slice (packet start e ulen sum data) 24 2 = htons ulen ∧
    slice (packet start e ulen sum data) 26 2 = sum ∧
    (packet start e ulen sum data).drop 28 = data ∧
    (packet start e ulen sum data).drop 20 = udpHeader e ulen sum ++ data := by
  obtain ⟨⟨s₀, s₁, s₂, s₃, hsrc⟩, ⟨d₀, d₁, d₂, d₃, hdst⟩, ⟨p₀, p₁, hsport⟩, ⟨q₀, q₁, hdport⟩,
    l₀, l₁, hlen⟩ := @exists_cells e ulen
  obtain ⟨a, b, rfl⟩ := List.length_eq_two.mp hsum
  match start, hstart with
  | [_, _, _, _, _, _, _, _, _], _ =>
    simp only [packet, udpHeader, hsrc, hdst, hsport, hdport, hlen]
    exact ⟨rfl, rfl, rfl, rfl, rfl, rfl, rfl, rfl, rfl⟩

theorem get_of_slice {pkt : List UInt8} {i n : ℕ} (hslice : slice pkt i 2 = htons n)
    (hn : n < 65536) : get .big pkt i 2 = n := by
  unfold Bytes.get
  rw [hslice, htons, Order.dec_enc]
  exact Nat.mod_eq_of_lt hn

theorem valid_udpWrite (hhdr : hdr.length = 28) (hdata : data.length ≤ 65507) :
    Valid e data (udpWrite h false e (hdr ++ data) data.length) := by
  have hlen : (overlay e (8 + data.length) [0, 0] ++ data).length ≤ 131072 := by
    rw [List.length_append, length_overlay _ rfl]
    omega
  have hnorm := norm_total_sumField h.order hlen
  have hfield := sumField_eq h.order hlen
  obtain ⟨hproto, hsrc, hdst, hsport, hdport, hulen, hat, hpayload, hudp⟩ :=
    @packet_fields e data (ipStart h (data.length + 28)) _ (8 + data.length)
      (length_ipStart _) (length_sumField _ _)
  rw [udpWrite_eq hhdr]
  refine ⟨?_, hproto, hsrc, hdst, get_of_slice hsport e.sport.toNat_lt,
    get_of_slice hdport e.dport.toNat_lt, get_of_slice hulen (by omega), hpayload, ?_, ?_⟩
  · simp only [packet, udpHeader, List.length_append, length_ipStart, List.length_singleton,
      length_htons, length_inAddr, length_sumField]
    omega
  · rw [get_of_slice (hat.trans hfield) (by split <;> omega)]
    have hle := @norm_le 65535 (by omega)
      (total (words .big (overlay e (8 + data.length) [0, 0] ++ data)))
    rw [internetSum_eq]
    split <;> omega
  · rw [hudp, internetSum_eq, ← total_overlay, hnorm]

/-- **`udp_write` sends a valid datagram**, and from the protocol on it is what the checksum
was taken over, with the checksum put in. -/
theorem udpWrite_valid (hhdr : hdr.length = 28) (hdata : data.length ≤ 65507) :
    Valid e data (udpWrite h false e (hdr ++ data) data.length) ∧
    (udpWrite h false e (hdr ++ data) data.length).drop 9 =
      (writeAt (fillUdp e (hdr ++ data) data.length) 26
        (slice (udpWrite h false e (hdr ++ data) data.length) 26 2)).drop 9 := by
  refine ⟨valid_udpWrite hhdr hdata, ?_⟩
  obtain ⟨-, -, -, -, -, -, hat, -, -⟩ :=
    @packet_fields e data (ipStart h (data.length + 28)) _ (8 + data.length)
      (length_ipStart _) (length_sumField _ _)
  rw [udpWrite_eq hhdr, hat, fillUdp_eq hhdr, writeAt_overlay rfl (length_sumField _ _)]
  generalize sumField h.order (overlay e (8 + data.length) [0, 0] ++ data) = sum
  rw [overlay_append, packet, packet, List.drop_left' (length_ipStart _),
    List.drop_left' List.length_replicate]

/-- An odd number of bytes. -/
theorem udpWrite_valid_odd : (List.replicate 28 (7 : UInt8)).length = 28 ∧
    ([1, 2, 3] : List UInt8).length ≤ 65507 ∧
    Valid ⟨0x7f000001, 0x7f000001, 53, 1024⟩ [1, 2, 3]
      (udpWrite ⟨.little, true⟩ false ⟨0x7f000001, 0x7f000001, 53, 1024⟩
        (List.replicate 28 7 ++ [1, 2, 3]) 3) :=
  ⟨by decide, by decide, (udpWrite_valid (by decide) (by decide)).1⟩

end Valid

end TcpIp.Udpcksum
