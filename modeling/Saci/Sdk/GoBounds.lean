import Saci.Sdk.GoColumns

/-!
# Reading stays inside

What the reader of the Go codec touches on behalf of a segment lies inside it, whatever the bytes
are, where no sum wraps. One lemma for each function of the reader says what it needs, and what is
known of what it returns.
-/

namespace Saci.GoSdk

open Traced

/-! ## Machine integers -/

section
variable {n : Int}

theorem int_eq (hle : -2 ^ 63 ≤ n) (hlt : n < 2 ^ 63) : int n = n :=
  Int.bmod_eq_of_le (by simpa using hle) (by simpa using hlt)

/-- An `int` is what its number is, up to wraps. -/
theorem int_spec (n : Int) : -2 ^ 63 ≤ int n ∧ int n < 2 ^ 63 ∧ ∃ k : Int, int n = n + 2 ^ 64 * k := by
  have hle : -((2 ^ 64 : Nat) / 2 : Int) ≤ int n := Int.le_bmod (x := n) (m := 2 ^ 64) (by decide)
  have hlt : int n < ((2 ^ 64 : Nat) + 1) / 2 := Int.bmod_lt (x := n) (m := 2 ^ 64) (by decide)
  refine ⟨by simpa using hle, by simpa using hlt, -Int.bdiv n (2 ^ 64), ?_⟩
  have h : 2 ^ 64 * Int.bdiv n (2 ^ 64) + int n = n := Int.bdiv_add_bmod n (2 ^ 64)
  omega

theorem int32_spec (n : Int) : -2 ^ 31 ≤ int32 n ∧ int32 n < 2 ^ 31 := by
  have hle : -((2 ^ 32 : Nat) / 2 : Int) ≤ int32 n := Int.le_bmod (x := n) (m := 2 ^ 32) (by decide)
  have hlt : int32 n < ((2 ^ 32 : Nat) + 1) / 2 := Int.bmod_lt (x := n) (m := 2 ^ 32) (by decide)
  exact ⟨by simpa using hle, by simpa using hlt⟩

/-- The next multiple of eight, where there is one. -/
theorem align8_spec (hn : 0 ≤ n) (hlt : n < 2 ^ 63 - 7) : n ≤ align8 n ∧ align8 n < n + 8 := by
  unfold align8
  rw [int_eq (by omega) (by omega)]
  dsimp only
  omega

/-- Near the top of the range, the next multiple of eight is the bottom of the range. -/
theorem align8_wrap (hle : 2 ^ 63 - 7 ≤ n) (hlt : n < 2 ^ 63) : align8 n = -2 ^ 63 := by
  have h : int (n + 7) = n + 7 - 2 ^ 64 := by
    obtain ⟨hlow, hhigh, k, hk⟩ := int_spec (n + 7)
    omega
  unfold align8
  rw [h]
  dsimp only
  omega

theorem leValue_lt (bytes : Bytes) : leValue bytes < 256 ^ bytes.length := by
  simpa [leValue] using beValue_lt bytes.reverse

end

/-! ## Memory -/

/-- The access lies in a window. -/
def Inside (lo hi : Int) (a : Access) : Prop := lo ≤ a.offset ∧ a.offset + a.size ≤ hi

/-- A window of the stream's bytes. -/
structure Window (buf : Bytes) (lo hi : Int) : Prop where
  nonneg : 0 ≤ lo
  le : lo ≤ hi
  le_length : hi ≤ buf.length
  length_le : buf.length ≤ maxAlloc

section
variable {buf : Bytes} {lo hi : Int} {b : FbBuf} {t : FbTable} {v : FbVector}

theorem Window.hi_le (w : Window buf lo hi) : hi ≤ 2 ^ 48 := by
  have hle := w.le_length
  have hlen : (buf.length : Int) ≤ 2 ^ 48 := by exact_mod_cast w.length_le
  omega

theorem bytesAt_sound (w : Window buf lo hi) {off size : Int} (hlo : lo ≤ off) (hsize : 0 ≤ size)
    (hhi : off + size ≤ hi) :
    Sound (Inside lo hi) (bytesAt buf off size) fun bytes => (bytes.length : Int) = size := by
  have hnonneg := w.nonneg
  have hlength := w.le_length
  unfold bytesAt
  rw [if_pos ⟨by omega, hsize, by omega⟩]
  refine ⟨fun a ha => ?_, nofun, fun bytes hbytes => ?_⟩
  · rw [List.mem_singleton.mp ha]
    exact ⟨hlo, hhi⟩
  · cases hbytes
    rw [List.length_take, List.length_drop]
    omega

theorem uint32At_sound (w : Window buf lo hi) {off : Int} (hlo : lo ≤ off) (hhi : off + 4 ≤ hi) :
    Sound (Inside lo hi) (uint32At buf off) fun n => 0 ≤ n ∧ n < 2 ^ 32 := by
  refine (bytesAt_sound w hlo (by omega) hhi).bind fun bytes hlength => .ret ⟨Int.natCast_nonneg _, ?_⟩
  have hlt := leValue_lt bytes
  rw [show bytes.length = 4 by omega] at hlt
  omega

theorem uint64At_sound (w : Window buf lo hi) {off : Int} (hlo : lo ≤ off) (hhi : off + 8 ≤ hi) :
    Sound (Inside lo hi) (uint64At buf off) fun n => 0 ≤ n ∧ n < 2 ^ 64 := by
  refine (bytesAt_sound w hlo (by omega) hhi).bind fun bytes hlength => .ret ⟨Int.natCast_nonneg _, ?_⟩
  have hlt := leValue_lt bytes
  rw [show bytes.length = 8 by omega] at hlt
  omega

/-! ## FlatBuffers -/

/-- The slice is part of a window. -/
structure FbBuf.Fits (b : FbBuf) (buf : Bytes) (lo hi : Int) : Prop where
  buf : b.buf = buf
  base : lo ≤ b.base
  len : 0 ≤ b.len
  stop : b.base + b.len ≤ hi

theorem slice_sound {A : Access → Prop} (w : Window buf lo hi) {start stop : Int} (hlo : lo ≤ start)
    (hle : start ≤ stop) (hhi : stop ≤ hi) :
    Sound A (slice buf start stop) fun b => b.Fits buf lo hi ∧ b.base = start ∧ b.len = stop - start := by
  have hnonneg := w.nonneg
  have hlength := w.le_length
  unfold slice
  rw [if_pos ⟨by omega, hle, by omega⟩]
  exact .ret ⟨⟨rfl, hlo, by dsimp only; omega, by dsimp only; omega⟩, rfl, rfl⟩

/-- What the positions in a message's metadata are below. -/
def Near (n : Int) : Prop := -2 ^ 50 ≤ n ∧ n ≤ 2 ^ 50

instance (n : Int) : Decidable (Near n) := inferInstanceAs (Decidable (_ ∧ _))

namespace FbBuf.Fits

theorem len_le (h : b.Fits buf lo hi) (w : Window buf lo hi) : b.len ≤ 2 ^ 48 := by
  have hbase := h.base
  have hstop := h.stop
  have hnonneg := w.nonneg
  have hhi := w.hi_le
  omega

theorem read (h : b.Fits buf lo hi) (w : Window buf lo hi) {off size : Int} (hoff : 0 ≤ off)
    (hsize : 0 ≤ size) (hstop : off + size ≤ b.len) :
    Sound (Inside lo hi) (b.read off size) fun bytes => (bytes.length : Int) = size := by
  have hbase := h.base
  have hlimit := h.stop
  unfold FbBuf.read
  rw [if_pos ⟨hoff, hsize, hstop⟩, h.buf]
  exact bytesAt_sound w (by omega) hsize (by omega)

theorem bounds {A : Access → Prop} (_ : b.Fits buf lo hi) {off n : Int} (hoff : Near off)
    (hn : Near n) :
    Sound A (b.bounds off n) fun _ => 0 ≤ off ∧ 0 ≤ n ∧ off + n ≤ b.len := by
  unfold Near at hoff hn
  refine (Sound.refuseIf _).mono fun _ hin => ?_
  rw [int_eq (by omega) (by omega)] at hin
  omega

theorem uint16 (h : b.Fits buf lo hi) (w : Window buf lo hi) {off : Int} (hoff : 0 ≤ off)
    (hstop : off + 2 ≤ b.len) :
    Sound (Inside lo hi) (b.uint16 off) fun n => 0 ≤ n ∧ n < 2 ^ 16 := by
  refine (h.read w hoff (by omega) hstop).bind fun bytes hlength => .ret ⟨Int.natCast_nonneg _, ?_⟩
  have hlt := leValue_lt bytes
  rw [show bytes.length = 2 by omega] at hlt
  omega

theorem u8 (h : b.Fits buf lo hi) (w : Window buf lo hi) {off : Int} (hoff : Near off) :
    Sound (Inside lo hi) (b.u8 off) fun n => 0 ≤ n ∧ n < 2 ^ 8 := by
  refine (h.bounds hoff (by decide)).bind fun _ ⟨hpos, _, hstop⟩ => ?_
  refine (h.read w hpos (by omega) hstop).bind fun bytes hlength => .ret ⟨Int.natCast_nonneg _, ?_⟩
  have hlt := leValue_lt bytes
  rw [show bytes.length = 1 by omega] at hlt
  omega

theorem u32 (h : b.Fits buf lo hi) (w : Window buf lo hi) {off : Int} (hoff : Near off) :
    Sound (Inside lo hi) (b.u32 off) fun n => (0 ≤ n ∧ n < 2 ^ 32) ∧ 0 ≤ off ∧ off + 4 ≤ b.len := by
  refine (h.bounds hoff (by decide)).bind fun _ ⟨hpos, _, hstop⟩ => ?_
  refine (h.read w hpos (by omega) hstop).bind fun bytes hlength =>
    .ret ⟨⟨Int.natCast_nonneg _, ?_⟩, hpos, hstop⟩
  have hlt := leValue_lt bytes
  rw [show bytes.length = 4 by omega] at hlt
  omega

theorem i64 (h : b.Fits buf lo hi) (w : Window buf lo hi) {off : Int} (hoff : Near off) :
    Sound (Inside lo hi) (b.i64 off) fun n => -2 ^ 63 ≤ n ∧ n < 2 ^ 63 := by
  refine (h.bounds hoff (by decide)).bind fun _ ⟨hpos, _, hstop⟩ => ?_
  refine (h.read w hpos (by omega) hstop).bind fun bytes _ => .ret ?_
  obtain ⟨hlow, hhigh, -⟩ := int_spec (leValue bytes)
  exact ⟨hlow, hhigh⟩

end FbBuf.Fits

/-- The table and its vtable lie in the buffer. -/
structure FbTable.Fits (t : FbTable) (buf : Bytes) (lo hi : Int) : Prop where
  buf : t.buf.Fits buf lo hi
  pos : 0 ≤ t.pos ∧ t.pos ≤ t.buf.len
  vt : 0 ≤ t.vt
  vtLen : t.vt + t.vtLen ≤ t.buf.len

theorem FbBuf.Fits.table (h : b.Fits buf lo hi) (w : Window buf lo hi) {pos : Int} (hpos : Near pos) :
    Sound (Inside lo hi) (b.table pos) fun t => t.Fits buf lo hi := by
  have hlen := h.len_le w
  unfold FbBuf.table
  refine (h.u32 w hpos).mapError.bind fun soff ⟨_, hpos, hstop⟩ => ?_
  have hsoff := int32_spec soff
  have hvt : int (pos - int32 soff) = pos - int32 soff := int_eq (by omega) (by omega)
  dsimp only
  rw [hvt]
  refine (h.bounds ⟨by omega, by omega⟩ (by decide)).mapError.bind fun _ ⟨hnonneg, _, hheader⟩ => ?_
  refine (h.uint16 w hnonneg (by omega)).bind fun vtLen hvtLen => ?_
  refine (Sound.refuseIf _).bind fun _ _ => ?_
  refine (h.bounds ⟨by omega, by omega⟩ ⟨by omega, by omega⟩).mapError.bind fun _ hfits => .ret ?_
  exact ⟨h, ⟨by omega, by dsimp only; omega⟩, hnonneg, by dsimp only; omega⟩

theorem FbBuf.Fits.root (h : b.Fits buf lo hi) (w : Window buf lo hi) :
    Sound (Inside lo hi) b.root fun t => t.Fits buf lo hi :=
  (h.u32 w (by decide)).bind fun _ ⟨hoff, _⟩ => h.table w ⟨by omega, by omega⟩

namespace FbTable.Fits

theorem slot (h : t.Fits buf lo hi) (w : Window buf lo hi) (id : Nat) (hid : id < 2 ^ 16) :
    Sound (Inside lo hi) (t.slot id) fun n => 0 ≤ n ∧ n < 2 ^ 16 := by
  have hvt := h.vt
  have hvtLen := h.vtLen
  have hlen := h.buf.len_le w
  unfold FbTable.slot
  dsimp only
  split_ifs with hshort
  · exact .ret (by decide)
  · rw [int_eq (by omega) (by omega)]
    exact h.buf.uint16 w (by omega) (by omega)

theorem has (h : t.Fits buf lo hi) (w : Window buf lo hi) (id : Nat) (hid : id < 2 ^ 16) :
    Sound (Inside lo hi) (t.has id) fun _ => True :=
  (h.slot w id hid).bind fun _ _ => .ret trivial

theorem u8 (h : t.Fits buf lo hi) (w : Window buf lo hi) (id : Nat) (hid : id < 2 ^ 16) :
    Sound (Inside lo hi) (t.u8 id 0) fun n => 0 ≤ n ∧ n < 2 ^ 8 := by
  have hlen := h.buf.len_le w
  have hpos := h.pos
  refine (h.slot w id hid).bind fun slot hslot => ?_
  split_ifs
  · exact .ret (by decide)
  · rw [int_eq (by omega) (by omega)]
    exact h.buf.u8 w ⟨by omega, by omega⟩

theorem i64 (h : t.Fits buf lo hi) (w : Window buf lo hi) (id : Nat) (hid : id < 2 ^ 16) :
    Sound (Inside lo hi) (t.i64 id 0) fun n => -2 ^ 63 ≤ n ∧ n < 2 ^ 63 := by
  have hlen := h.buf.len_le w
  have hpos := h.pos
  refine (h.slot w id hid).bind fun slot hslot => ?_
  split_ifs
  · exact .ret (by decide)
  · rw [int_eq (by omega) (by omega)]
    exact h.buf.i64 w ⟨by omega, by omega⟩

end FbTable.Fits

theorem FbBuf.Fits.deref (h : b.Fits buf lo hi) (w : Window buf lo hi) {position : Int}
    (hposition : Near position) :
    Sound (Inside lo hi) (FbTable.deref b position) fun n => 0 ≤ n ∧ n ≤ b.len + 2 ^ 32 := by
  have hlen := h.len_le w
  refine (h.u32 w hposition).bind fun off ⟨hoff, hpos, hstop⟩ => .ret ?_
  rw [int_eq (by omega) (by omega)]
  omega

/-- The vector's elements begin in the buffer, and there are no more than fit in it. -/
structure FbVector.Fits (v : FbVector) (buf : Bytes) (lo hi : Int) : Prop where
  buf : v.buf.Fits buf lo hi
  start : 0 ≤ v.start ∧ v.start ≤ v.buf.len
  count : 0 ≤ v.count ∧ v.count < 2 ^ 32

theorem asLength_sound {A : Access → Prop} (n : Int) (what : String) :
    Sound A (asLength n what) fun m => m = n ∧ 0 ≤ n ∧ n < 2 ^ 63 :=
  (Sound.refuseIf _).bind fun _ _ => .ret ⟨rfl, by omega, by omega⟩

namespace FbTable.Fits

/-- A field of the table is near the table. -/
theorem near_slot (h : t.Fits buf lo hi) (w : Window buf lo hi) {slot : Int}
    (hslot : 0 ≤ slot ∧ slot < 2 ^ 16) : Near (int (t.pos + slot)) := by
  have hlen := h.buf.len_le w
  have hpos := h.pos
  rw [int_eq (by omega) (by omega)]
  exact ⟨by omega, by omega⟩

theorem child (h : t.Fits buf lo hi) (w : Window buf lo hi) (id : Nat) (hid : id < 2 ^ 16) :
    Sound (Inside lo hi) (t.child id) fun child => ∀ c ∈ child, c.Fits buf lo hi := by
  have hlen := h.buf.len_le w
  refine (h.slot w id hid).bind fun slot hslot => ?_
  split_ifs
  · exact .ret nofun
  · refine (h.buf.deref w (h.near_slot w hslot)).bind fun pos hpos => ?_
    refine (h.buf.table w ⟨by omega, by omega⟩).bind fun child hchild => .ret fun c hc => ?_
    cases hc
    exact hchild

theorem str (h : t.Fits buf lo hi) (w : Window buf lo hi) (id : Nat) (hid : id < 2 ^ 16) :
    Sound (Inside lo hi) (t.str id) fun _ => True := by
  have hlen := h.buf.len_le w
  refine (h.slot w id hid).bind fun slot hslot => ?_
  split_ifs
  · exact .ret trivial
  · refine (h.buf.deref w (h.near_slot w hslot)).bind fun head hhead => ?_
    refine (h.buf.u32 w ⟨by omega, by omega⟩).bind fun n ⟨hn, hpos, hstop⟩ => ?_
    have hnext : int (head + 4) = head + 4 := int_eq (by omega) (by omega)
    rw [hnext]
    refine (h.buf.bounds ⟨by omega, by omega⟩ ⟨by omega, by omega⟩).bind fun _ hin => ?_
    exact (h.buf.read w hin.1 hin.2.1 hin.2.2).bind fun _ _ => .ret trivial

theorem vector (h : t.Fits buf lo hi) (w : Window buf lo hi) (id : Nat) (hid : id < 2 ^ 16) :
    Sound (Inside lo hi) (t.vector id) fun vector => ∀ v ∈ vector, v.Fits buf lo hi := by
  have hlen := h.buf.len_le w
  refine (h.slot w id hid).bind fun slot hslot => ?_
  split_ifs
  · exact .ret nofun
  · refine (h.buf.deref w (h.near_slot w hslot)).bind fun head hhead => ?_
    refine (h.buf.u32 w ⟨by omega, by omega⟩).bind fun n ⟨hn, hpos, hstop⟩ => ?_
    refine (asLength_sound n _).bind fun count ⟨hcount, _⟩ => ?_
    subst hcount
    refine (Sound.refuseIf _).bind fun _ _ => .ret fun v hv => ?_
    cases hv
    rw [int_eq (by omega) (by omega)]
    exact ⟨h.buf, ⟨by dsimp only; omega, by dsimp only; omega⟩, hn⟩

end FbTable.Fits

/-- A buffer lies in the window. -/
structure Span.Fits (s : Span) (lo hi : Int) : Prop where
  off : lo ≤ s.off
  len : 0 ≤ s.len
  stop : s.off + s.len ≤ hi

namespace FbVector.Fits

theorem table (h : v.Fits buf lo hi) (w : Window buf lo hi) {i : Int} (hi' : 0 ≤ i)
    (hlt : i < 2 ^ 32) : Sound (Inside lo hi) (v.table i) fun t => t.Fits buf lo hi := by
  have hlen := h.buf.len_le w
  have hstart := h.start
  unfold FbVector.table
  rw [int_eq (by omega) (by omega)]
  refine (h.buf.deref w ⟨by omega, by omega⟩).bind fun pos hpos => ?_
  exact h.buf.table w ⟨by omega, by omega⟩

theorem inline (h : v.Fits buf lo hi) (w : Window buf lo hi) {i size : Int} (hi' : -1 ≤ i)
    (hlt : i < 2 ^ 32) (hsize : size = 16) :
    Sound (Inside lo hi) (v.inline i size) fun position => 0 ≤ position ∧ position + 16 ≤ v.buf.len := by
  subst hsize
  have hlen := h.buf.len_le w
  have hstart := h.start
  unfold FbVector.inline
  dsimp only
  rw [int_eq (n := i * 16) (by omega) (by omega), int_eq (by omega) (by omega)]
  refine (Sound.refuseIf _).bind fun _ _ => ?_
  exact (h.buf.bounds ⟨by omega, by omega⟩ (by decide)).bind fun _ hin => .ret ⟨hin.1, hin.2.2⟩

/-- A buffer is part of the body, wherever the body is in the window. -/
theorem buffer (h : v.Fits buf lo hi) (w : Window buf lo hi) {i body bodyLen : Int} (hi' : 0 ≤ i)
    (hlt : i < 2 ^ 32) (hbody : lo ≤ body) (hstop : body + bodyLen ≤ hi) :
    Sound (Inside lo hi) (v.buffer i body bodyLen) fun s => s.Fits lo hi := by
  have hlen := h.buf.len_le w
  have hhi := w.hi_le
  have hnonneg := w.nonneg
  refine (h.inline w (by omega) hlt rfl).bind fun position hposition => ?_
  refine (h.buf.i64 w ⟨by omega, by omega⟩).bind fun off hoff => ?_
  refine (h.buf.i64 w ⟨?_, ?_⟩).bind fun length hlength => ?_
  · rw [int_eq (by omega) (by omega)]
    omega
  · rw [int_eq (by omega) (by omega)]
    omega
  refine (Sound.refuseIf _).bind fun _ hin => .ret ?_
  rw [int_eq (n := bodyLen - off) (by omega) (by omega)] at hin
  rw [int_eq (by omega) (by omega)]
  exact ⟨by dsimp only; omega, by dsimp only; omega, by dsimp only; omega⟩

end FbVector.Fits

/-! ## Messages -/

/-- The message's metadata lie in the window, and so does its body unless its end wraps. -/
structure Message.Fits (m : Message) (buf : Bytes) (lo hi : Int) : Prop where
  root : m.root.Fits buf lo hi
  body : lo ≤ m.body ∧ m.body ≤ hi
  bodyLen : 0 ≤ m.bodyLen ∧ m.bodyLen < 2 ^ 63
  stop : int (m.body + m.bodyLen) ≤ hi
  next : m.next = int (m.body + align8 m.bodyLen)

/-- The end of the body is past the largest `int`. -/
def Message.Overruns (m : Message) : Prop := 2 ^ 63 ≤ m.body + m.bodyLen

instance (m : Message) : Decidable m.Overruns := inferInstanceAs (Decidable (_ ≤ _))

theorem message_sound (w : Window buf lo hi) {pos : Int} (hpos : lo ≤ pos) (hnear : pos ≤ hi + 8) :
    Sound (Inside lo hi) (message buf pos hi) fun found => ∀ m ∈ found, m.Fits buf lo hi := by
  have hhi := w.hi_le
  have hnonneg := w.nonneg
  have hnext : int (pos + 8) = pos + 8 := int_eq (by omega) (by omega)
  unfold message
  simp only [hnext]
  refine (Sound.refuseIf _).bind fun _ hin => ?_
  refine (uint32At_sound w hpos (by omega)).bind fun word _ => ?_
  refine (Sound.refuseIf _).bind fun _ _ => ?_
  rw [int_eq (n := pos + 4) (by omega) (by omega)]
  refine (uint32At_sound w (by omega) (by omega)).bind fun metaLen hmeta => ?_
  split_ifs
  · exact .ret nofun
  · rw [int_eq (n := pos + 8 + metaLen) (by omega) (by omega)]
    refine (Sound.refuseIf _).bind fun _ hbody => ?_
    refine (slice_sound w (by omega) (by omega) (by omega)).bind fun fb ⟨hfb, _⟩ => ?_
    refine (hfb.root w).mapError.bind fun root hroot => ?_
    refine (hroot.u8 w 1 (by omega)).mapError.bind fun headerType _ => ?_
    refine (hroot.i64 w 3 (by omega)).mapError.bind fun rawBodyLen _ => ?_
    refine (asLength_sound rawBodyLen _).bind fun bodyLen ⟨hlen, hlow, hhigh⟩ => ?_
    subst hlen
    refine (Sound.refuseIf _).bind fun _ hstop => .ret fun m hm => ?_
    cases hm
    exact ⟨hroot, ⟨by dsimp only; omega, by dsimp only; omega⟩, ⟨hlow, hhigh⟩, by dsimp only; omega, rfl⟩

/-- Before the stream there is no message, and no check that says so. -/
theorem message_trap {pos limit : Int} (hlow : -2 ^ 63 ≤ pos) (hneg : pos < -8) (hlimit : 0 ≤ limit) :
    (message buf pos limit).result = .error .trap := by
  have hnext : int (pos + 8) = pos + 8 := int_eq (by omega) (by omega)
  have htrap : (uint32At buf pos).result = .error .trap := by
    unfold uint32At bytesAt
    rw [if_neg (by omega)]
    rfl
  unfold message
  rw [result_bind_of_ok (result_refuseIf_eq_ok_iff.mpr (by rw [hnext]; omega))]
  exact result_bind_of_error htrap

namespace Message.Fits
variable {m : Message}

/-- Where the end of the body does not wrap, the body is in the window and the next message after it. -/
theorem regular (h : m.Fits buf lo hi) (w : Window buf lo hi) (hfits : ¬m.Overruns) :
    m.body + m.bodyLen ≤ hi ∧ m.body + m.bodyLen ≤ m.next ∧ m.next ≤ hi + 8 := by
  have hhi := w.hi_le
  have hnonneg := w.nonneg
  have hbody := h.body
  have hbodyLen := h.bodyLen
  have hstop := h.stop
  unfold Message.Overruns at hfits
  rw [int_eq (by omega) (by omega)] at hstop
  have halign := align8_spec (n := m.bodyLen) (by omega) (by omega)
  rw [h.next, int_eq (by omega) (by omega)]
  omega

/-- Where it wraps, the next message would be before the stream. -/
theorem wrapped (h : m.Fits buf lo hi) (w : Window buf lo hi) (hover : m.Overruns) :
    -2 ^ 63 ≤ m.next ∧ m.next + 2 ^ 63 ≤ m.body := by
  have hhi := w.hi_le
  have hnonneg := w.nonneg
  have hbody := h.body
  have hbodyLen := h.bodyLen
  unfold Message.Overruns at hover
  rw [h.next]
  obtain ⟨hlow, hhigh, k, hk⟩ := int_spec (m.body + align8 m.bodyLen)
  by_cases htop : m.bodyLen < 2 ^ 63 - 7
  · have halign := align8_spec (n := m.bodyLen) (by omega) htop
    omega
  · rw [align8_wrap (n := m.bodyLen) (by omega) (by omega)] at hk hlow hhigh ⊢
    omega

end Message.Fits

/-! ## Segments -/

/-- What is known of a segment's schema. -/
structure SegmentSchema.Fits (sc : SegmentSchema) (buf : Bytes) (lo hi : Int) : Prop where
  msg : sc.msg.Fits buf lo hi
  header : sc.header.Fits buf lo hi

theorem componentFrom_sound (hv : v.Fits buf lo hi) (w : Window buf lo hi) (remaining i : Nat)
    (hlt : (i : Int) + remaining ≤ 2 ^ 32) :
    Sound (Inside lo hi) (componentFrom v i remaining) fun _ => True := by
  induction remaining generalizing i with
  | zero => exact .refuse _
  | succ remaining ih =>
    push_cast at hlt
    unfold componentFrom
    refine (hv.table w (by omega) (by omega)).mapError.bind fun kv hkv => ?_
    refine (hkv.str w 0 (by omega)).mapError.bind fun key _ => ?_
    split_ifs
    · exact ih (i + 1) (by push_cast; omega)
    · refine (hkv.str w 1 (by omega)).mapError.bind fun value _ => ?_
      cases value with
      | none => exact .refuse _
      | some value => exact .ret trivial

theorem componentOf_sound (ht : t.Fits buf lo hi) (w : Window buf lo hi) :
    Sound (Inside lo hi) (componentOf t) fun _ => True := by
  refine (ht.vector w 2 (by omega)).bind fun entries hentries => ?_
  cases entries with
  | none => exact .refuse _
  | some entries =>
    have hfits := hentries entries rfl
    have hcount := hfits.count
    exact componentFrom_sound hfits w _ 0 (by omega)

theorem schemaOf_sound {seg : Segment} (w : Window buf seg.start seg.stop) (i : Nat) :
    Sound (Inside seg.start seg.stop) (schemaOf buf i seg) fun sc => sc.Fits buf seg.start seg.stop := by
  have hle := w.le
  refine (message_sound w le_rfl (by omega)).mapError.bind fun msg hmsg => ?_
  cases msg with
  | none => exact .refuse _
  | some msg =>
    have hfits := hmsg msg rfl
    refine (Sound.refuseIf _).bind fun _ _ => ?_
    refine (hfits.root.child w 2 (by omega)).mapError.bind fun header hheader => ?_
    cases header with
    | none => exact .refuse _
    | some header =>
      have hfitsHeader := hheader header rfl
      exact (componentOf_sound hfitsHeader w).mapError.bind fun _ _ => .ret ⟨hfits, hfitsHeader⟩

/-! ## Batches -/

theorem asRowCount_sound {A : Access → Prop} (n : Int) :
    Sound A (asRowCount n) fun rows => 0 ≤ rows ∧ rows < 2 ^ 31 :=
  (Sound.refuseIf _).bind fun _ _ => .ret ⟨by omega, by omega⟩

/-- The buffers that are read of a field lie in the segment. -/
structure Field.Fits (f : Field) (lo hi : Int) : Prop where
  offsets : f.typ = typeUtf8 → f.offsets.Fits lo hi
  values : f.values.Fits lo hi

structure Batch.Fits (b : Batch) (lo hi : Int) : Prop where
  rows : 0 ≤ b.rows ∧ b.rows < 2 ^ 31
  fields : ∀ f ∈ b.fields, f.Fits lo hi

theorem schemaField_sound (hv : v.Fits buf lo hi) (w : Window buf lo hi) {i : Nat}
    (hlt : (i : Int) < 2 ^ 32) : Sound (Inside lo hi) (schemaField v i) fun _ => True := by
  refine (hv.table w (by omega) hlt).mapError.bind fun t ht => ?_
  refine (ht.str w 0 (by omega)).mapError.bind fun name _ => ?_
  cases name with
  | none => exact .refuse _
  | some name => exact (ht.u8 w 2 (by omega)).mapError.bind fun _ _ => .ret trivial

theorem schemaFieldsOf_sound (ht : t.Fits buf lo hi) (w : Window buf lo hi) :
    Sound (Inside lo hi) (schemaFieldsOf t) fun _ => True := by
  refine (ht.vector w 1 (by omega)).mapError.bind fun vec hvec => ?_
  cases vec with
  | none => exact .refuse _
  | some vec =>
    have hfits := hvec vec rfl
    have hcount := hfits.count
    refine (Sound.forEach (R := fun _ => True) fun i hmem => ?_).mono fun _ _ => trivial
    have hlt := List.mem_range.mp hmem
    exact schemaField_sound hfits w (by omega)

/-- A record batch whose end wraps is refused here. -/
theorem endOfSegment_sound {m : Message} (h : m.Fits buf lo hi) (w : Window buf lo hi) :
    Sound (Inside lo hi) (endOfSegment buf m.next hi) fun _ => ¬m.Overruns := by
  have hhi := w.hi_le
  have hnonneg := w.nonneg
  have hle := w.le
  have hbody := h.body
  have hbodyLen := h.bodyLen
  unfold endOfSegment
  by_cases hover : m.Overruns
  · obtain ⟨hlow, hnext⟩ := h.wrapped w hover
    rw [if_neg (by omega)]
    have hleft : int (hi - m.next) < 8 := by
      obtain ⟨_, hhigh, k, hk⟩ := int_spec (hi - m.next)
      omega
    dsimp only
    refine (Sound.refuseIf _).bind fun _ hcheck => absurd hleft hcheck
  · have hregular := h.regular w hover
    split_ifs with heq
    · exact .ret hover
    · refine (Sound.refuseIf _).bind fun _ hleft => ?_
      rw [int_eq (by omega) (by omega)] at hleft
      refine (message_sound w (by omega) (by omega)).bind fun tail _ => ?_
      cases tail with
      | some tail => exact .refuse _
      | none => exact (Sound.refuseIf _).mono fun _ _ => hover

theorem takeBuffer_sound (hv : v.Fits buf lo hi) (w : Window buf lo hi) {m : Message}
    (h : m.Fits buf lo hi) (hfits : ¬m.Overruns) {next : Int} (hnext : 0 ≤ next) (name : Bytes) :
    Sound (Inside lo hi) (takeBuffer v m next name) fun s => s.Fits lo hi := by
  have hcount := hv.count
  refine (Sound.refuseIf _).bind fun _ hin => ?_
  exact hv.buffer w hnext (by omega) h.body.1 (h.regular w hfits).1

theorem resolveField_sound (hv : v.Fits buf lo hi) (w : Window buf lo hi) {m : Message}
    (h : m.Fits buf lo hi) (hfits : ¬m.Overruns) {next : Int} (hnext : 0 ≤ next) (f : Field) :
    Sound (Inside lo hi) (resolveField v m next f) fun r => r.1.Fits lo hi ∧ 0 ≤ r.2 := by
  refine (takeBuffer_sound hv w h hfits hnext f.name).bind fun validity _ => ?_
  split_ifs with hfixed hutf8
  · refine (takeBuffer_sound hv w h hfits (by omega) f.name).bind fun values hvalues => .ret ⟨?_, ?_⟩
    · refine ⟨fun hutf8 => ?_, hvalues⟩
      dsimp only at hutf8
      rw [hutf8] at hfixed
      exact absurd hfixed (by decide)
    · dsimp only
      omega
  · refine (takeBuffer_sound hv w h hfits (by omega) f.name).bind fun offsets hoffsets => ?_
    refine (takeBuffer_sound hv w h hfits (by omega) f.name).bind fun values hvalues => .ret ⟨?_, ?_⟩
    · exact ⟨fun _ => hoffsets, hvalues⟩
    · dsimp only
      omega
  · exact .refuse _

theorem resolveFields_sound (hv : v.Fits buf lo hi) (w : Window buf lo hi) {m : Message}
    (h : m.Fits buf lo hi) (hfits : ¬m.Overruns) (fields : List Field) {next : Int}
    (hnext : 0 ≤ next) :
    Sound (Inside lo hi) (resolveFields v m next fields) fun r => ∀ f ∈ r.1, f.Fits lo hi := by
  induction fields generalizing next with
  | nil => exact .ret nofun
  | cons f fields ih =>
    refine (resolveField_sound hv w h hfits hnext f).bind fun (f', next') ⟨hf, hnext'⟩ => ?_
    refine (ih hnext').bind fun (fs, last) hfs => .ret ?_
    exact List.forall_mem_cons.mpr ⟨hf, hfs⟩

theorem checkNodes_sound (ht : t.Fits buf lo hi) (w : Window buf lo hi) (fields : List Field) :
    Sound (Inside lo hi) (checkNodes t fields) fun _ => True := by
  refine (ht.vector w 1 (by omega)).mapError.bind fun nodes hnodes => ?_
  refine (Sound.refuseIf _).bind fun _ _ => ?_
  cases nodes with
  | none => exact .ret trivial
  | some nodes =>
    have hfits := hnodes nodes rfl
    have hcount := hfits.count
    dsimp only
    split_ifs
    · rw [int_eq (by omega) (by omega)]
      exact (hfits.inline w (by omega) (by omega) rfl).mapError.bind fun _ _ => .ret trivial
    · exact .ret trivial

/-- The message that a regular schema message is followed by. -/
theorem following_sound {m : Message} (h : m.Fits buf lo hi) (w : Window buf lo hi)
    (hfits : ¬m.Overruns) :
    Sound (Inside lo hi) (message buf m.next hi) fun found => ∀ m ∈ found, m.Fits buf lo hi := by
  have hregular := h.regular w hfits
  have hbody := h.body
  have hbodyLen := h.bodyLen
  exact message_sound w (by omega) (by omega)

theorem recordBatch_sound {seg : Segment} {sc : SegmentSchema} (w : Window buf seg.start seg.stop)
    (h : sc.Fits buf seg.start seg.stop) (hfits : ¬sc.msg.Overruns) :
    Sound (Inside seg.start seg.stop) (recordBatch buf seg sc) fun r =>
      r.1.Fits buf seg.start seg.stop ∧ r.2.Fits buf seg.start seg.stop := by
  refine (following_sound h.msg w hfits).bind fun rb hrb => ?_
  cases rb with
  | none => exact .refuse _
  | some rb =>
    have hrbFits := hrb rb rfl
    refine (Sound.refuseIf _).bind fun _ _ => (Sound.refuseIf _).bind fun _ _ => ?_
    refine (hrbFits.root.child w 2 (by omega)).mapError.bind fun header hheader => ?_
    cases header with
    | none => exact .refuse _
    | some header => exact .ret ⟨hrbFits, hheader header rfl⟩

theorem batch_sound {seg : Segment} {sc : SegmentSchema} (w : Window buf seg.start seg.stop)
    (h : sc.Fits buf seg.start seg.stop)
    (hfits : ∀ fields, (schemaFieldsOf sc.header).result = .ok fields → ¬sc.msg.Overruns) :
    Sound (Inside seg.start seg.stop) (batch buf seg sc) fun b => b.Fits seg.start seg.stop := by
  refine (schemaFieldsOf_sound h.header w).self.bind fun fields ⟨_, hfields⟩ => ?_
  refine (recordBatch_sound w h (hfits fields hfields)).bind fun (rb, header) ⟨hrb, hheader⟩ => ?_
  refine (hheader.has w 3 (by omega)).bind fun compressed _ => ?_
  refine (Sound.refuseIf _).bind fun _ _ => ?_
  refine (endOfSegment_sound hrb w).bind fun _ hregular => ?_
  refine (hheader.i64 w 0 (by omega)).mapError.bind fun rawRows _ => ?_
  refine (asRowCount_sound rawRows).bind fun rows hrows => ?_
  refine (checkNodes_sound hheader w fields).bind fun _ _ => ?_
  refine (hheader.vector w 2 (by omega)).mapError.bind fun buffers hbuffers => ?_
  cases buffers with
  | none => exact .refuse _
  | some buffers =>
    refine (resolveFields_sound (hbuffers buffers rfl) w hrb hregular fields le_rfl).bind
      fun (resolved, next) hresolved => ?_
    exact (Sound.refuseIf _).bind fun _ _ => .ret ⟨hrows, hresolved⟩

theorem segmentRows_sound {seg : Segment} {sc : SegmentSchema} (w : Window buf seg.start seg.stop)
    (h : sc.Fits buf seg.start seg.stop) (hfits : ¬sc.msg.Overruns) :
    Sound (Inside seg.start seg.stop) (segmentRows buf seg sc) fun _ => True := by
  refine (following_sound h.msg w hfits).bind fun rb hrb => ?_
  cases rb with
  | none => exact .refuse _
  | some rb =>
    have hrbFits := hrb rb rfl
    refine (Sound.refuseIf _).bind fun _ _ => ?_
    refine (hrbFits.root.child w 2 (by omega)).mapError.bind fun header hheader => ?_
    cases header with
    | none => exact .refuse _
    | some header =>
      refine ((hheader header rfl).i64 w 0 (by omega)).bind fun raw _ => ?_
      exact (asRowCount_sound raw).mono fun _ _ => trivial

/-- What follows a schema message whose end wraps is looked for before the stream. -/
theorem following_trap {m : Message} (h : m.Fits buf lo hi) (w : Window buf lo hi)
    (hover : m.Overruns) : (message buf m.next hi).result = .error .trap := by
  have hhi := w.hi_le
  have hnonneg := w.nonneg
  have hle := w.le
  have hbody := h.body
  obtain ⟨hlow, hnext⟩ := h.wrapped w hover
  exact message_trap hlow (by omega) (by omega)

/-! ## Columns -/

namespace Batch.Fits
variable {c : Batch} {A : Access → Prop}

theorem fieldNamed (h : c.Fits lo hi) (name : Bytes) :
    Sound A (c.fieldNamed name) fun f => f.Fits lo hi := by
  unfold Batch.fieldNamed
  split
  · next f hfind => exact .ret (h.fields f (List.mem_of_find?_eq_some hfind))
  · exact .refuse _

theorem field (h : c.Fits lo hi) (name : Bytes) (want : Int) :
    Sound A (c.field name want) fun f => f.Fits lo hi ∧ f.typ = want := by
  refine (h.fieldNamed name).bind fun f hf => (Sound.refuseIf _).bind fun _ htyp => .ret ⟨hf, ?_⟩
  exact not_not.mp htyp

theorem reader (h : c.Fits lo hi) (name : Bytes) (want : Int) :
    Sound A (c.reader name want 8) fun f => f.Fits lo hi ∧ c.rows * 8 ≤ f.values.len := by
  have hrows := h.rows
  refine (h.field name want).bind fun f ⟨hf, _⟩ => ?_
  refine (Sound.refuseIf _).bind fun _ hneed => .ret ⟨hf, ?_⟩
  rw [int_eq (by omega) (by omega)] at hneed
  omega

theorem checkRow (_ : c.Fits lo hi) (name : Bytes) (row : Int) :
    Sound A (c.checkRow name row) fun _ => 0 ≤ row ∧ row < c.rows :=
  (Sound.refuseIf _).mono fun _ hin => by omega

theorem needBits (h : c.Fits lo hi) (f : Field) :
    Sound A (c.needBits f) fun _ => c.rows ≤ f.values.len * 8 := by
  have hrows := h.rows
  refine (Sound.refuseIf _).mono fun _ hneed => ?_
  rw [int_eq (by omega) (by omega), Int.tdiv_eq_ediv_of_nonneg (by omega)] at hneed
  omega

theorem writer (h : c.Fits lo hi) (name : Bytes) (want row : Int) :
    Sound A (c.writer name want row 8) fun f =>
      f.Fits lo hi ∧ c.rows * 8 ≤ f.values.len ∧ 0 ≤ row ∧ row < c.rows := by
  refine (h.fieldNamed name).bind fun _ _ => (Sound.refuseIf _).bind fun _ _ => ?_
  refine (h.checkRow name row).bind fun _ hrow => ?_
  exact (h.reader name want).mono fun _ ⟨hf, hlen⟩ => ⟨hf, hlen, hrow⟩

/-- Where value `i` of eight bytes begins. -/
theorem word_eq (h : c.Fits lo hi) (w : Window buf lo hi) {f : Field} (hf : f.Fits lo hi) {i : Int}
    (hi' : 0 ≤ i) (hlt : i < c.rows) :
    int (f.values.off + int (i * 8)) = f.values.off + i * 8 := by
  have hrows := h.rows
  have hlow := hf.values.off
  have hlen := hf.values.len
  have hstop := hf.values.stop
  have hnonneg := w.nonneg
  have hhi := w.hi_le
  rw [int_eq (n := i * 8) (by omega) (by omega), int_eq (by omega) (by omega)]

theorem mem_indices (h : c.Fits lo hi) {i : Nat} (hi' : i ∈ c.indices) : (i : Int) < c.rows := by
  have hrows := h.rows
  have hlt := List.mem_range.mp hi'
  omega

/-- Every value of eight bytes can be read. -/
theorem words (h : c.Fits lo hi) (w : Window buf lo hi) {f : Field} (hf : f.Fits lo hi)
    (hlen : c.rows * 8 ≤ f.values.len) {i : Nat} (hi' : i ∈ c.indices) :
    Sound (Inside lo hi) (uint64At buf (int (f.values.off + int (i * 8)))) fun _ => True := by
  have hlt := h.mem_indices hi'
  have hlow := hf.values.off
  have hstop := hf.values.stop
  rw [h.word_eq w hf (by omega) hlt]
  exact (uint64At_sound w (by omega) (by omega)).mono fun _ _ => trivial

theorem int64s (h : c.Fits lo hi) (w : Window buf lo hi) (name : Bytes) :
    Sound (Inside lo hi) (c.int64s buf name) fun _ => True := by
  refine (h.reader name typeInt).bind fun f ⟨hf, hlen⟩ => ?_
  refine (Sound.forEach (R := fun _ => True) fun i hmem => ?_).mono fun _ _ => trivial
  exact (h.words w hf hlen hmem).bind fun _ _ => .ret trivial

theorem float64s (h : c.Fits lo hi) (w : Window buf lo hi) (name : Bytes) :
    Sound (Inside lo hi) (c.float64s buf name) fun _ => True := by
  refine (h.reader name typeFloat).bind fun f ⟨hf, hlen⟩ => ?_
  exact (Sound.forEach fun i hmem => h.words w hf hlen hmem).mono fun _ _ => trivial

/-- The byte that holds bit `i` can be read. -/
theorem bit (h : c.Fits lo hi) (w : Window buf lo hi) {f : Field} (hf : f.Fits lo hi)
    (hlen : c.rows ≤ f.values.len * 8) {i : Int} (hi' : 0 ≤ i) (hlt : i < c.rows) :
    int (f.values.off + i / 8) = f.values.off + i / 8 ∧ lo ≤ f.values.off + i / 8 ∧
      f.values.off + i / 8 + 1 ≤ hi := by
  have hrows := h.rows
  have hlow := hf.values.off
  have hstop := hf.values.stop
  have hnonneg := w.nonneg
  have hhi := w.hi_le
  rw [int_eq (by omega) (by omega)]
  omega

theorem byteAt (w : Window buf lo hi) {off : Int} (hlo : lo ≤ off) (hhi : off + 1 ≤ hi) :
    Sound (Inside lo hi) (byteAt buf off) fun _ => True :=
  (bytesAt_sound w hlo (by omega) hhi).bind fun _ _ => .ret trivial

theorem bools (h : c.Fits lo hi) (w : Window buf lo hi) (name : Bytes) :
    Sound (Inside lo hi) (c.bools buf name) fun _ => True := by
  refine (h.field name typeBool).bind fun f ⟨hf, _⟩ => (h.needBits f).bind fun _ hlen => ?_
  refine (Sound.forEach (R := fun _ => True) fun i hmem => ?_).mono fun _ _ => trivial
  obtain ⟨heq, hlo, hhi⟩ := h.bit w hf hlen (i := i) (by omega) (h.mem_indices hmem)
  rw [Int.natCast_ediv, Nat.cast_ofNat, heq]
  exact (byteAt w hlo hhi).bind fun _ _ => .ret trivial

theorem stringAt (h : c.Fits lo hi) (w : Window buf lo hi) {f : Field} (hf : f.Fits lo hi)
    (hutf8 : f.typ = typeUtf8) (hlen : (c.rows + 1) * 4 ≤ f.offsets.len) {i : Nat}
    (hi' : i ∈ c.indices) (name : Bytes) :
    Sound (Inside lo hi) (stringAt buf name f i) fun _ => True := by
  have hrows := h.rows
  have hlt := h.mem_indices hi'
  have hoffsets := hf.offsets hutf8
  have hlow := hoffsets.off
  have hstop := hoffsets.stop
  have hvaluesLow := hf.values.off
  have hvaluesStop := hf.values.stop
  have hnonneg := w.nonneg
  have hhi := w.hi_le
  unfold Batch.stringAt
  rw [int_eq (n := (i : Int) * 4) (by omega) (by omega), int_eq (n := ((i : Int) + 1) * 4) (by omega) (by omega),
    int_eq (by omega) (by omega), int_eq (by omega) (by omega)]
  refine (uint32At_sound w (by omega) (by omega)).bind fun start _ => ?_
  refine (uint32At_sound w (by omega) (by omega)).bind fun stop _ => ?_
  dsimp only
  have hstart := int32_spec start
  have hend := int32_spec stop
  refine (Sound.refuseIf _).bind fun _ hin => ?_
  rw [int_eq (n := f.values.off + int32 start) (by omega) (by omega),
    int_eq (n := f.values.off + int32 stop) (by omega) (by omega)]
  exact (bytesAt_sound w (by omega) (by omega) (by omega)).mono fun _ _ => trivial

theorem strings (h : c.Fits lo hi) (w : Window buf lo hi) (name : Bytes) :
    Sound (Inside lo hi) (c.strings buf name) fun _ => True := by
  have hrows := h.rows
  refine (h.field name typeUtf8).bind fun f ⟨hf, hutf8⟩ => (Sound.refuseIf _).bind fun _ hneed => ?_
  rw [int_eq (n := c.rows + 1) (by omega) (by omega), int_eq (by omega) (by omega)] at hneed
  refine (Sound.forEach (R := fun _ => True) fun i hmem => ?_).mono fun _ _ => trivial
  exact h.stringAt w hf hutf8 (by omega) hmem name

/-- A write leaves the length of the bytes alone. -/
theorem putAt (w : Window buf lo hi) {off : Int} {bytes : Bytes} (hlo : lo ≤ off)
    (hhi : off + bytes.length ≤ hi) :
    Sound (Inside lo hi) (putAt buf off bytes) fun after => after.length = buf.length := by
  have hnonneg := w.nonneg
  have hlength := w.le_length
  unfold Batch.putAt
  rw [if_pos ⟨by omega, by omega⟩]
  refine ⟨fun a ha => ?_, nofun, fun after hafter => ?_⟩
  · rw [List.mem_singleton.mp ha]
    exact ⟨hlo, hhi⟩
  · cases hafter
    simp only [List.length_append, List.length_take, List.length_drop]
    omega

theorem setUint64 (h : c.Fits lo hi) (w : Window buf lo hi) (name : Bytes) (want row : Int)
    (bits : UInt64) :
    Sound (Inside lo hi) (c.setUint64 buf name want row bits) fun after =>
      after.length = buf.length := by
  refine (h.writer name want row).bind fun f ⟨hf, hlen, hrow, hlt⟩ => ?_
  have hlow := hf.values.off
  have hstop := hf.values.stop
  rw [h.word_eq w hf hrow hlt]
  exact putAt w (by omega) (by rw [length_leBytes]; omega)

theorem setBool (h : c.Fits lo hi) (w : Window buf lo hi) (name : Bytes) (row : Int) (v : Bool) :
    Sound (Inside lo hi) (c.setBool buf name row v) fun after => after.length = buf.length := by
  refine (h.field name typeBool).bind fun f ⟨hf, _⟩ => (h.checkRow name row).bind fun _ hrow => ?_
  refine (h.needBits f).bind fun _ hlen => ?_
  obtain ⟨heq, hlo, hhi⟩ := h.bit w hf hlen hrow.1 hrow.2
  dsimp only
  rw [Int.tdiv_eq_ediv_of_nonneg hrow.1, heq]
  exact (byteAt w hlo hhi).bind fun _ _ => putAt w hlo hhi

end Batch.Fits
end
end Saci.GoSdk
