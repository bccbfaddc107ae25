import RexOs.Net.DnsName

/-! The answer that `dns_receive` takes from a response (`kernel/net/dns.c`).

A name on the wire is a sequence of labels that ends with the root label or with a pointer to the
rest of the name. The loop over the questions knows both endings. The loop over the answers takes
a pointer only where it stands alone: after a label it reads the pointer's first byte as a length.
-/

set_option autoImplicit false

namespace RexOs.Net

open RexOs.Library

instance (ls : List (List UInt8)) : Decidable (Proper ls) := inferInstanceAs (Decidable (∀ l ∈ ls, l ≠ [] ∧ l.length ≤ 63))

structure WireName where
  labels : List (List UInt8)
  pointer : Option UInt16
  proper : Proper labels
  compressed : ∀ target ∈ pointer, 0xC000 ≤ target

def WireName.ending (name : WireName) : List UInt8 :=
  match name.pointer with
  | none => [0]
  | some target => htons target

def WireName.bytes (name : WireName) : List UInt8 := wireLabels name.labels ++ name.ending

def WireName.Simple (name : WireName) : Prop := name.labels = [] ∨ name.pointer = none

instance (name : WireName) : Decidable name.Simple := inferInstanceAs (Decidable (_ ∨ _))

structure Question where
  name : WireName
  qtype : UInt16
  qclass : UInt16

def Question.bytes (q : Question) : List UInt8 := q.name.bytes ++ (htons q.qtype ++ htons q.qclass)

structure ResourceRecord where
  name : WireName
  rtype : UInt16
  rclass : UInt16
  ttl : UInt32
  rdata : List UInt8
  fits : rdata.length < 2 ^ 16
  address : rtype = 1 → rdata.length = 4

def ResourceRecord.fixed (r : ResourceRecord) : List UInt8 :=
  htons r.rtype ++ (htons r.rclass ++ (htonl r.ttl ++ htons (UInt16.ofNat r.rdata.length)))

def ResourceRecord.bytes (r : ResourceRecord) : List UInt8 := r.name.bytes ++ (r.fixed ++ r.rdata)

def ResourceRecord.ip? (r : ResourceRecord) : Option Ip4Addr := if r.rtype = 1 then some (ipAt r.rdata 0) else none

def firstA (answers : List ResourceRecord) : Option Ip4Addr := answers.findSome? ResourceRecord.ip?

/-- A response whose authority and additional sections are `rest`. One that reports an error gives no address. -/
structure Response where
  id : UInt16
  flags : UInt16
  questions : List Question
  answers : List ResourceRecord
  nscount : UInt16
  arcount : UInt16
  rest : List UInt8
  questionsFit : questions.length < 2 ^ 16
  answersFit : answers.length < 2 ^ 16
  response : flags &&& 0x8000 ≠ 0
  failed : flags &&& 0x000F ≠ 0 → ∀ r ∈ answers, r.rtype ≠ 1

def Response.header (r : Response) : List UInt8 :=
  htons r.id ++ (htons r.flags ++ (htons (UInt16.ofNat r.questions.length) ++
    (htons (UInt16.ofNat r.answers.length) ++ (htons r.nscount ++ htons r.arcount))))

def Response.bytes (r : Response) : List UInt8 :=
  r.header ++ (r.questions.flatMap Question.bytes ++ (r.answers.flatMap ResourceRecord.bytes ++ r.rest))

def Dns.take (s : Dns) : Option Ip4Addr → Dns
  | none => s
  | some ip => { s with resolvedIp := ip, resolved := true }

def SimpleUpTo : List ResourceRecord → Prop
  | [] => True
  | r :: rest => r.name.Simple ∧ (r.rtype = 1 ∨ SimpleUpTo rest)

def simplePart (answers : List ResourceRecord) : List ResourceRecord := answers.takeWhile (·.name.Simple)

structure Message (p : Ptr) (len : UInt32) (data : List UInt8) : Prop where
  points : p.Points data
  size : len.toNat = data.length
  short : data.length < 2 ^ 16

section
variable {p : Ptr} {len pos : UInt32} {data tail label : List UInt8} {b : UInt8} {name : WireName}

theorem Message.move (msg : Message p len data) (low : pos.toNat ≤ data.length + 255) (k : UInt32) (near : k.toNat ≤ 2 ^ 16) :
    (pos + k).toNat = pos.toNat + k.toNat := by
  have small := msg.short
  rw [UInt32.toNat_add]
  omega

theorem At.before {n : Nat} (here : At data n (b :: tail)) : n + tail.length < data.length := by
  have inside := here.inside
  rw [List.length_cons] at inside
  omega

theorem Message.inside (msg : Message p len data) (here : At data pos.toNat (b :: tail)) : pos < len := by
  rw [UInt32.lt_iff_toNat_lt, msg.size]
  have bound := here.before
  omega

theorem Message.read (msg : Message p len data) (here : At data pos.toNat (b :: tail)) : p.read pos.toNat = .ok b := by
  have bound := here.before
  rw [msg.points.read (by omega), here.byte]

theorem label_byte : ∀ n : Nat, n < 64 → n ≠ 0 → UInt8.ofNat n ≠ 0 ∧ UInt8.ofNat n &&& 0xC0 ≠ 0xC0 := by decide

theorem pointer_byte : ∀ n : Nat, n < 256 → 0xC0 ≤ n → UInt8.ofNat n ≠ 0 ∧ UInt8.ofNat n &&& 0xC0 = 0xC0 := by
  decide +kernel

theorem WireName.pointer_high (name : WireName) {target : UInt16} (found : name.pointer = some target) :
    0xC0 ≤ (target >>> 8).toUInt8.toNat ∧ (target >>> 8).toUInt8 ≠ 0 ∧ (target >>> 8).toUInt8 &&& 0xC0 = 0xC0 := by
  have large := UInt16.le_iff_toNat_le.mp (name.compressed target found)
  have start : (0xC000 : UInt16).toNat = 49152 := rfl
  rw [start] at large
  have small := target.toNat_lt
  have high : (target >>> 8).toUInt8.toNat = target.toNat / 256 := by
    simp only [UInt16.toNat_toUInt8, UInt16.toNat_shiftRight, Nat.shiftRight_eq_div_pow, UInt16.reduceToNat,
      Nat.reduceMod, Nat.reducePow]
    omega
  have byte : UInt8.ofNat (target >>> 8).toUInt8.toNat = (target >>> 8).toUInt8 := UInt8.ofNat_toNat
  have bits := pointer_byte (target >>> 8).toUInt8.toNat (UInt8.toNat_lt _) (by omega)
  rw [byte] at bits
  exact ⟨by omega, bits⟩

theorem label_place (msg : Message p len data) (short : label.length ≤ 63)
    (here : At data pos.toNat ((UInt8.ofNat label.length :: label) ++ tail)) :
    ∃ next : UInt32, pos + 1 + (UInt8.ofNat label.length).toUInt32 = next ∧
      pos + ((UInt8.ofNat label.length).toUInt32 + 1) = next ∧ next.toNat = pos.toNat + (label.length + 1) := by
  have bound := here.left.before
  have small := msg.short
  have size : (UInt8.ofNat label.length).toNat = label.length :=
    UInt8.toNat_ofNat_of_lt' (by simp only [UInt8.size]; omega)
  refine ⟨_, rfl, ?_, ?_⟩
  · rw [UInt32.add_assoc, UInt32.add_comm 1]
  · simp only [UInt32.toNat_add, UInt8.toNat_toUInt32, size, UInt32.reduceToNat]
    omega

theorem first_byte {ls : List (List UInt8)} (proper : Proper ls) (plain : b &&& 0xC0 ≠ 0xC0) (tail : List UInt8) :
    ∃ first rest, wireLabels ls ++ b :: tail = first :: rest ∧ first &&& 0xC0 ≠ 0xC0 := by
  cases ls with
  | nil => exact ⟨b, tail, rfl, plain⟩
  | cons label ls =>
    obtain ⟨nonempty, short⟩ := proper label List.mem_cons_self
    have byte := label_byte label.length (by omega) fun none => nonempty (List.eq_nil_of_length_eq_zero none)
    exact ⟨UInt8.ofNat label.length, _, rfl, byte.2⟩

theorem skip_wireLabels (msg : Message p len data) (ls : List (List UInt8)) : ∀ (pos : UInt32) (fuel : Nat),
    Proper ls → At data pos.toNat (wireLabels ls ++ tail) →
    ∃ next : UInt32, next.toNat = pos.toNat + (wireLabels ls).length ∧
      skipLabels p len (fuel + ls.length) pos = skipLabels p len fuel next ∧
      skipName p len (fuel + ls.length) pos = skipName p len fuel next := by
  induction ls with
  | nil =>
    intro pos fuel _ _
    exact ⟨pos, rfl, rfl, rfl⟩
  | cons label ls ih =>
    intro pos fuel proper here
    obtain ⟨nonempty, short⟩ := proper label List.mem_cons_self
    have shape : wireLabels (label :: ls) = (UInt8.ofNat label.length :: label) ++ wireLabels ls := rfl
    rw [shape, List.append_assoc] at here
    obtain ⟨next, labels, name, place⟩ := label_place msg short here
    have later := here.right
    rw [List.length_cons, ← place] at later
    obtain ⟨last, count, skips, skips'⟩ := ih next fuel (fun l member => proper l (List.mem_cons_of_mem _ member)) later
    obtain ⟨nonzero, plain⟩ := label_byte label.length (by omega) fun none => nonempty (List.eq_nil_of_length_eq_zero none)
    refine ⟨last, ?_, ?_, ?_⟩
    · rw [count, place, shape, List.length_append, List.length_cons]
      omega
    · show skipLabels p len (fuel + ls.length + 1) pos = _
      rw [skipLabels, if_pos (msg.inside here.left), msg.read here.left, ok_bind, if_neg nonzero, if_neg plain, labels, skips]
    · show skipName p len (fuel + ls.length + 1) pos = _
      rw [skipName, if_pos (msg.inside here.left), msg.read here.left, ok_bind, if_neg nonzero, name, skips']

theorem wireLabels_length (ls : List (List UInt8)) : ls.length ≤ (wireLabels ls).length := by
  have longer := wire_length ls
  rw [wire, List.length_append] at longer
  exact Nat.le_of_lt_succ longer

theorem skipLabels_name (msg : Message p len data) {fuel : Nat} (enough : data.length ≤ fuel)
    (here : At data pos.toNat (name.bytes ++ tail)) :
    ∃ next : UInt32, next.toNat = pos.toNat + name.bytes.length ∧ skipLabels p len (fuel + 1) pos = .ok next := by
  have bound := here.left.inside
  have few := wireLabels_length name.labels
  have small := msg.short
  rw [WireName.bytes, List.length_append] at bound
  rw [WireName.bytes, List.append_assoc] at here
  obtain ⟨fuel, rfl⟩ := Nat.exists_eq_add_of_le' (show name.labels.length ≤ fuel by omega)
  obtain ⟨last, place, skips, _⟩ := skip_wireLabels msg name.labels pos (fuel + 1) name.proper here
  have later := here.right
  rw [← place] at later
  rw [Nat.add_right_comm, skips, WireName.bytes, List.length_append]
  cases found : name.pointer with
  | none =>
    have ends : name.ending = [0] := by rw [WireName.ending, found]
    rw [ends] at later bound ⊢
    refine ⟨last + 1, ?_, ?_⟩
    · rw [msg.move (by omega) 1 (by decide), place]
      rfl
    · rw [skipLabels, if_pos (msg.inside later), msg.read later, ok_bind, if_pos rfl]
  | some target =>
    have ends : name.ending = htons target := by rw [WireName.ending, found]
    have two : (htons target).length = 2 := rfl
    obtain ⟨_, nonzero, bits⟩ := name.pointer_high found
    rw [ends, two] at bound
    rw [ends] at later ⊢
    refine ⟨last + 1 + 1, ?_, ?_⟩
    · rw [UInt32.add_assoc, msg.move (by omega) (1 + 1) (by decide), place]
      rfl
    · rw [skipLabels, if_pos (msg.inside later), msg.read later, ok_bind, if_neg nonzero, if_pos bits]

theorem answerStart_simple (msg : Message p len data) {fuel : Nat} (enough : data.length ≤ fuel) (simple : name.Simple)
    (here : At data pos.toNat (name.bytes ++ tail)) :
    ∃ next : UInt32, next.toNat = pos.toNat + name.bytes.length ∧ answerStart p len (fuel + 1) pos = .ok next := by
  have bound := here.left.inside
  have few := wireLabels_length name.labels
  rw [WireName.bytes, List.length_append] at bound
  rw [WireName.bytes, List.append_assoc] at here
  rw [WireName.bytes, List.length_append]
  cases found : name.pointer with
  | some target =>
    have none : name.labels = [] := simple.resolve_right (by rw [found]; exact fun other => by cases other)
    have ends : name.ending = htons target := by rw [WireName.ending, found]
    rw [none, ends] at here bound
    obtain ⟨_, _, bits⟩ := name.pointer_high found
    have first : At data pos.toNat ((target >>> 8).toUInt8 :: (target.toUInt8 :: tail)) := here
    refine ⟨pos + 2, ?_, ?_⟩
    · rw [msg.move (by omega) 2 (by decide), none, ends]
      rfl
    · rw [answerStart, msg.read first, ok_bind, if_pos bits]
  | none =>
    have ends : name.ending = [0] := by rw [WireName.ending, found]
    rw [ends] at here bound ⊢
    obtain ⟨fuel, rfl⟩ := Nat.exists_eq_add_of_le' (show name.labels.length ≤ fuel by omega)
    obtain ⟨last, place, _, skips⟩ := skip_wireLabels msg name.labels pos (fuel + 1) name.proper here
    have later := here.right
    rw [← place] at later
    have stops : skipName p len (fuel + name.labels.length + 1) pos = .ok last := by
      rw [Nat.add_right_comm, skips, skipName, if_pos (msg.inside later), msg.read later, ok_bind, if_pos rfl]
    refine ⟨last + 1, ?_, ?_⟩
    · rw [msg.move (by omega) 1 (by decide), place]
      rfl
    · have zero : (0 : UInt8) &&& 0xC0 ≠ 0xC0 := by decide
      obtain ⟨first, rest, shape, plain⟩ := first_byte name.proper zero tail
      have begin : At data pos.toNat (first :: rest) := shape ▸ here
      rw [answerStart, msg.read begin, ok_bind, if_neg plain, stops, ok_bind]

theorem skipName_pointer (msg : Message p len data) {target : UInt16} (found : name.pointer = some target)
    (here : At data pos.toNat (htons target ++ tail)) (behind : 12 ≤ pos.toNat) (near : data.length ≤ 12 + 193) (fuel : Nat) :
    ∃ next : UInt32, len ≤ next ∧ next.toNat ≤ pos.toNat + 256 ∧ skipName p len (fuel + 1 + 1) pos = .ok next := by
  obtain ⟨large, nonzero, _⟩ := name.pointer_high found
  have first : At data pos.toNat ((target >>> 8).toUInt8 :: (target.toUInt8 :: tail)) := here
  have size := msg.size
  have bound := first.before
  have high := (target >>> 8).toUInt8.toNat_lt
  have jump : (pos + ((target >>> 8).toUInt8.toUInt32 + 1)).toNat = pos.toNat + ((target >>> 8).toUInt8.toNat + 1) := by
    simp only [UInt32.toNat_add, UInt8.toNat_toUInt32, UInt32.reduceToNat]
    omega
  have outside : ¬ pos + ((target >>> 8).toUInt8.toUInt32 + 1) < len := by
    rw [UInt32.lt_iff_toNat_lt, jump]
    omega
  refine ⟨pos + ((target >>> 8).toUInt8.toUInt32 + 1), UInt32.not_lt.mp outside, ?_, ?_⟩
  · rw [jump]
    omega
  · rw [skipName, if_pos (msg.inside first), msg.read first, ok_bind, if_neg nonzero, skipName, if_neg outside]

theorem answerStart_overshoots (msg : Message p len data) {fuel : Nat} (enough : data.length ≤ fuel) (mixed : ¬ name.Simple)
    (here : At data pos.toNat (name.bytes ++ tail)) (behind : 12 ≤ pos.toNat) (near : data.length ≤ 12 + 193) :
    ∃ next : UInt32, len < next + 10 ∧ answerStart p len (fuel + 1) pos = .ok next := by
  have bound := here.left.inside
  have few := wireLabels_length name.labels
  rw [WireName.bytes, List.length_append] at bound
  rw [WireName.bytes, List.append_assoc] at here
  obtain ⟨some_, target, found⟩ : name.labels ≠ [] ∧ ∃ target, name.pointer = some target := by
    obtain ⟨some_, pointed⟩ := not_or.mp mixed
    exact ⟨some_, Option.ne_none_iff_exists'.mp pointed⟩
  have ends : name.ending = htons target := by rw [WireName.ending, found]
  have two : (htons target).length = 2 := rfl
  rw [ends, two] at bound
  rw [ends] at here
  -- `skip_name` goes over the labels, and then on from the pointer
  obtain ⟨fuel, rfl⟩ := Nat.exists_eq_add_of_le' (show name.labels.length + 1 ≤ fuel by omega)
  obtain ⟨last, place, _, skips⟩ := skip_wireLabels msg name.labels pos (fuel + 1 + 1) name.proper here
  have later := here.right
  rw [← place] at later
  obtain ⟨next, beyond, close, jumps⟩ := skipName_pointer msg found later (by omega) near fuel
  have stops : skipName p len (fuel + (name.labels.length + 1) + 1) pos = .ok next := by
    have same : fuel + (name.labels.length + 1) + 1 = fuel + 1 + 1 + name.labels.length := by omega
    rw [same, skips, jumps]
  -- it is called as the first byte is that of a label
  obtain ⟨label, ls, shape⟩ := List.exists_cons_of_ne_nil some_
  have proper := name.proper
  rw [shape] at proper here
  obtain ⟨nonempty, short⟩ := proper label List.mem_cons_self
  have byte := label_byte label.length (by omega) fun none => nonempty (List.eq_nil_of_length_eq_zero none)
  refine ⟨next + 1, ?_, ?_⟩
  · rw [UInt32.le_iff_toNat_le] at beyond
    rw [UInt32.lt_iff_toNat_lt]
    simp only [UInt32.toNat_add, UInt32.reduceToNat]
    omega
  · have begin : At data pos.toNat (UInt8.ofNat label.length :: ((label ++ wireLabels ls) ++ (htons target ++ tail))) := here
    rw [answerStart, msg.read begin, ok_bind, if_neg byte.2, stops, ok_bind]

theorem At.getD {n i : Nat} (here : At data n tail) (inside : i < tail.length) : data.getD (n + i) 0 = tail.getD i 0 := by
  obtain ⟨front, rest, shape, size⟩ := here
  rw [shape, List.getD_eq_getElem?_getD, List.getElem?_append_right (by omega), size, Nat.add_sub_cancel_left,
    List.getElem?_append_left inside, List.getD_eq_getElem?_getD]

theorem At.ipAt {n : Nat} (here : At data n tail) (four : tail.length = 4) : ipAt data n = ipAt tail 0 := by
  rw [Net.ipAt, Net.ipAt, ← here.getD (i := 1) (by omega), ← here.getD (i := 2) (by omega), ← here.getD (i := 3) (by omega),
    ← here.getD (i := 0) (by omega)]
  rfl

theorem answerLoop_record (msg : Message p len data) {fuel : Nat} (enough : data.length ≤ fuel) {r : ResourceRecord}
    (simple : r.name.Simple) (here : At data pos.toNat (r.bytes ++ tail)) (answers : Nat) :
    ∃ next : UInt32, next.toNat = pos.toNat + r.bytes.length ∧ answerLoop p len (fuel + 1) (answers + 1) pos =
      if r.rtype = 1 then .ok (some (ipAt r.rdata 0)) else answerLoop p len (fuel + 1) answers next := by
  have bound := here.left.inside
  have ten : r.fixed.length = 10 := rfl
  have size := msg.size
  have fits := r.fits
  have short := msg.short
  rw [ResourceRecord.bytes, List.length_append, List.length_append, ten] at bound
  rw [ResourceRecord.bytes, List.append_assoc] at here
  obtain ⟨start, place, starts⟩ := answerStart_simple msg enough simple here
  have fixed := here.right.left
  have rdata : At data (pos.toNat + r.name.bytes.length + 10) r.rdata := fixed.right
  rw [← place] at fixed rdata
  have inside : pos < len := by
    rw [UInt32.lt_iff_toNat_lt]
    omega
  have room : ¬ start + 10 > len := by
    rw [gt_iff_lt, UInt32.lt_iff_toNat_lt, msg.move (by omega) 10 (by decide)]
    simp only [UInt32.reduceToNat]
    omega
  have eight : (start + 8).toNat = start.toNat + 8 := msg.move (by omega) 8 (by decide)
  have end_ : (start + 10).toNat = start.toNat + 10 := msg.move (by omega) 10 (by decide)
  have typed : p.read16 start.toNat = .ok r.rtype := by
    rw [msg.points.read16 (by omega), fixed.left.left.word]
  have counted : p.read16 (start + 8).toNat = .ok (UInt16.ofNat r.rdata.length) := by
    have word : At data (start.toNat + 8) (htons (UInt16.ofNat r.rdata.length)) := fixed.left.right.right.right
    rw [msg.points.read16 (by omega), eight, word.word]
  have count : (UInt16.ofNat r.rdata.length).toNat = r.rdata.length :=
    UInt16.toNat_ofNat_of_lt' (by simp only [UInt16.size]; omega)
  rw [answerLoop, if_pos inside, starts, ok_bind, if_neg room, typed, ok_bind, counted, ok_bind]
  -- an A record is taken, and any other one is skipped by its length
  refine ⟨start + 10 + (UInt16.ofNat r.rdata.length).toUInt32, ?_, ?_⟩
  · rw [UInt32.toNat_add, end_, UInt16.toNat_toUInt32, count, ResourceRecord.bytes, List.length_append, List.length_append,
      ten]
    omega
  · by_cases address : r.rtype = 1
    · have four := r.address address
      have inner : start + 10 + 4 ≤ len := by
        rw [UInt32.le_iff_toNat_le, UInt32.add_assoc, msg.move (by omega) (10 + 4) (by decide)]
        have fourteen : (10 + 4 : UInt32).toNat = 14 := rfl
        omega
      have length : UInt16.ofNat r.rdata.length = 4 := by
        rw [four]
        rfl
      rw [if_pos ⟨address, length, inner⟩, if_pos address, msg.points.readIp (by omega), ok_bind, end_, rdata.ipAt four]
    · rw [if_neg fun found => address found.1, if_neg address]

theorem firstA_cons (r : ResourceRecord) (answers : List ResourceRecord) :
    firstA (r :: answers) = if r.rtype = 1 then some (ipAt r.rdata 0) else firstA answers := by
  rw [firstA, List.findSome?_cons, ResourceRecord.ip?]
  by_cases address : r.rtype = 1
  · rw [if_pos address, if_pos address]
  · rw [if_neg address, if_neg address]
    rfl

theorem firstA_none {answers : List ResourceRecord} (others : ∀ r ∈ answers, r.rtype ≠ 1) : firstA answers = none := by
  rw [firstA, List.findSome?_eq_none_iff]
  intro r member
  exact if_neg (others r member)

theorem answerLoop_simple (msg : Message p len data) {fuel : Nat} (enough : data.length ≤ fuel) (answers : List ResourceRecord) :
    ∀ pos : UInt32, SimpleUpTo answers → At data pos.toNat (answers.flatMap ResourceRecord.bytes ++ tail) →
    answerLoop p len (fuel + 1) answers.length pos = .ok (firstA answers) := by
  induction answers with
  | nil =>
    intro pos _ _
    rfl
  | cons r answers ih =>
    intro pos simple here
    obtain ⟨owner, later⟩ := simple
    rw [List.flatMap_cons, List.append_assoc] at here
    obtain ⟨next, place, round⟩ := answerLoop_record msg enough owner here answers.length
    have behind := here.right
    rw [← place] at behind
    rw [List.length_cons, round, firstA_cons]
    by_cases address : r.rtype = 1
    · rw [if_pos address, if_pos address]
    · rw [if_neg address, if_neg address, ih next (later.resolve_left address) behind]

theorem answerLoop_short (msg : Message p len data) {fuel : Nat} (enough : data.length ≤ fuel) (near : data.length ≤ 12 + 193)
    (answers : List ResourceRecord) : ∀ pos : UInt32, 12 ≤ pos.toNat →
    At data pos.toNat (answers.flatMap ResourceRecord.bytes ++ tail) →
    answerLoop p len (fuel + 1) answers.length pos = .ok (firstA (simplePart answers)) := by
  induction answers with
  | nil =>
    intro pos _ _
    rfl
  | cons r answers ih =>
    intro pos low here
    rw [List.flatMap_cons, List.append_assoc] at here
    by_cases owner : r.name.Simple
    · obtain ⟨next, place, round⟩ := answerLoop_record msg enough owner here answers.length
      have behind := here.right
      rw [← place] at behind
      have part : simplePart (r :: answers) = r :: simplePart answers :=
        List.takeWhile_cons_of_pos (decide_eq_true owner)
      rw [List.length_cons, round, part, firstA_cons]
      by_cases address : r.rtype = 1
      · rw [if_pos address, if_pos address]
      · rw [if_neg address, if_neg address, ih next (by omega) behind]
    · -- the position is behind the message, and the loop gives up
      have part : simplePart (r :: answers) = [] := List.takeWhile_cons_of_neg (by rw [decide_eq_false owner]; exact Bool.false_ne_true)
      have inside : pos < len := by
        have bound := here.left.inside
        have ten : r.fixed.length = 10 := rfl
        rw [ResourceRecord.bytes, List.length_append, List.length_append, ten] at bound
        rw [UInt32.lt_iff_toNat_lt, msg.size]
        omega
      rw [ResourceRecord.bytes, List.append_assoc] at here
      obtain ⟨next, outside, jumps⟩ := answerStart_overshoots msg enough owner here low near
      rw [part, List.length_cons, answerLoop, if_pos inside, jumps, ok_bind, if_pos outside]
      rfl

theorem skipQuestions_bytes (msg : Message p len data) {fuel : Nat} (enough : data.length ≤ fuel) (questions : List Question) :
    ∀ pos : UInt32, At data pos.toNat (questions.flatMap Question.bytes ++ tail) →
    ∃ next : UInt32, next.toNat = pos.toNat + (questions.flatMap Question.bytes).length ∧
      skipQuestions p len (fuel + 1) questions.length pos = .ok next := by
  induction questions with
  | nil =>
    intro pos _
    exact ⟨pos, rfl, rfl⟩
  | cons q questions ih =>
    intro pos here
    have four : (htons q.qtype ++ htons q.qclass).length = 4 := rfl
    rw [List.flatMap_cons, List.append_assoc] at here
    have bound := here.left.inside
    rw [Question.bytes, List.length_append, four] at bound
    have named := here.left
    rw [Question.bytes] at named
    obtain ⟨next, place, skips⟩ := skipLabels_name msg enough named
    have size : q.bytes.length = q.name.bytes.length + 4 := List.length_append
    have moved : (next + 4).toNat = pos.toNat + q.bytes.length := by
      rw [msg.move (by omega) 4 (by decide), place, size]
      rfl
    have later := here.right
    rw [← moved] at later
    obtain ⟨last, count, rest⟩ := ih (next + 4) later
    have inside : pos < len := by
      rw [UInt32.lt_iff_toNat_lt, msg.size]
      omega
    refine ⟨last, ?_, ?_⟩
    · rw [count, moved, List.flatMap_cons, List.length_append, Nat.add_assoc]
    · rw [List.length_cons, skipQuestions, if_pos inside, skips, ok_bind, rest]

theorem dnsReceive_response {r : Response} (msg : Message p len r.bytes) {fuel : Nat} (enough : r.bytes.length ≤ fuel)
    {s : Dns} (ours : r.id = s.queryId) :
    ∃ pos : UInt32, 12 ≤ pos.toNat ∧ At r.bytes pos.toNat (r.answers.flatMap ResourceRecord.bytes ++ r.rest) ∧
      ∀ found, answerLoop p len (fuel + 1) r.answers.length pos = .ok found → (firstA r.answers = none → found = none) →
        dnsReceive (fuel + 1) s s.queryServer p len dnsPort = .ok (s.take found) := by
  have size := msg.size
  have start : At r.bytes (UInt32.ofNat dnsHeaderSize).toNat
      (r.questions.flatMap Question.bytes ++ (r.answers.flatMap ResourceRecord.bytes ++ r.rest)) :=
    ⟨r.header, [], by rw [List.append_nil]; rfl, rfl⟩
  have header : At r.bytes 0 r.header := ⟨[], _, rfl, rfl⟩
  have twelve : r.header.length = 12 := rfl
  have room := header.inside
  rw [twelve] at room
  obtain ⟨pos, place, skips⟩ := skipQuestions_bytes msg enough r.questions _ start
  have answers := start.right
  rw [← place] at answers
  refine ⟨pos, by rw [place]; exact Nat.le_add_right _ _, answers, ?_⟩
  intro found loop error
  have large : ¬ len < UInt32.ofNat dnsHeaderSize := by
    rw [UInt32.lt_iff_toNat_lt, size, Nat.not_lt]
    exact room
  have id : p.read16 0 = .ok r.id := by rw [msg.points.read16 (by omega), header.left.word]
  have flags : p.read16 2 = .ok r.flags := by
    have here : At r.bytes 2 (htons r.flags) := header.right.left
    rw [msg.points.read16 (by omega), here.word]
  have qdcount : p.read16 4 = .ok (UInt16.ofNat r.questions.length) := by
    have here : At r.bytes 4 (htons (UInt16.ofNat r.questions.length)) := header.right.right.left
    rw [msg.points.read16 (by omega), here.word]
  have ancount : p.read16 6 = .ok (UInt16.ofNat r.answers.length) := by
    have here : At r.bytes 6 (htons (UInt16.ofNat r.answers.length)) := header.right.right.right.left
    rw [msg.points.read16 (by omega), here.word]
  have questions : (UInt16.ofNat r.questions.length).toNat = r.questions.length :=
    UInt16.toNat_ofNat_of_lt' r.questionsFit
  have records : (UInt16.ofNat r.answers.length).toNat = r.answers.length := UInt16.toNat_ofNat_of_lt' r.answersFit
  -- an error response and an empty one end before the loop, but then there is nothing to find
  have answer : dnsAnswer (fuel + 1) s.queryServer s.queryId s.queryServer p len dnsPort = .ok found := by
    rw [dnsAnswer, if_neg (not_not_intro rfl), if_neg large, if_neg (not_not_intro rfl), id, ok_bind,
      if_neg (not_not_intro ours), flags, ok_bind, ancount, ok_bind, if_neg r.response]
    by_cases failed : r.flags &&& 0x000F ≠ 0
    · rw [if_pos failed, error (firstA_none (r.failed failed))]
    rw [if_neg failed]
    by_cases empty : UInt16.ofNat r.answers.length = 0
    · have none : r.answers = [] := List.eq_nil_of_length_eq_zero (by rw [← records, empty]; rfl)
      rw [if_pos empty, error (by rw [none]; rfl)]
    rw [if_neg empty, qdcount, ok_bind, questions, skips, ok_bind, records, loop]
  rw [dnsReceive, answer, ok_bind]
  cases found with
  | none => rfl
  | some ip => rfl

theorem simplePart_none {answers : List ResourceRecord} (absent : firstA answers = none) :
    firstA (simplePart answers) = none := by
  rw [firstA, List.findSome?_eq_none_iff] at absent ⊢
  intro r member
  exact absent r ((List.takeWhile_prefix _).subset member)

theorem Dns.take_inj {s : Dns} (pending : s.resolved = false) {x y : Option Ip4Addr} (same : s.take x = s.take y) : x = y := by
  have taken : ∀ ip, s.take (some ip) ≠ s := by
    intro ip wrong
    have flag : (s.take (some ip)).resolved = true := rfl
    rw [wrong, pending] at flag
    cases flag
  cases x with
  | none =>
    cases y with
    | none => rfl
    | some ip => exact absurd same.symm (taken ip)
  | some ip =>
    cases y with
    | none => exact absurd same (taken ip)
    | some ip' => exact congrArg some (congrArg Dns.resolvedIp same)

/-- A response to the pending query is read rightly when the owner names up to that of the first A record are
simple. In a message of at most 205 bytes exactly the A records before the first mixed name are seen. -/
theorem dns_extraction {r : Response} (msg : Message p len r.bytes) {fuel : Nat} (enough : r.bytes.length ≤ fuel)
    {s : Dns} (ours : r.id = s.queryId) :
    (SimpleUpTo r.answers →
      dnsReceive (fuel + 1) s s.queryServer p len dnsPort = .ok (s.take (firstA r.answers))) ∧
    (s.resolved = false → r.bytes.length ≤ 205 →
      (dnsReceive (fuel + 1) s s.queryServer p len dnsPort = .ok (s.take (firstA r.answers)) ↔
        firstA (simplePart r.answers) = firstA r.answers)) := by
  obtain ⟨pos, low, here, receives⟩ := dnsReceive_response msg enough ours
  constructor
  · intro simple
    exact receives _ (answerLoop_simple msg enough r.answers pos simple here) fun none => none
  · intro pending short
    have seen := receives _ (answerLoop_short msg enough short r.answers pos low here) simplePart_none
    rw [seen]
    constructor
    · intro same
      exact Dns.take_inj pending (Except.ok.inj same)
    · intro same
      rw [same]

end

def pendingQuery : Dns := ⟨.zero, false, 7, ⟨8, 8, 8, 8⟩⟩

def WireName.plain (ls : List (List UInt8)) (proper : Proper ls) : WireName :=
  ⟨ls, none, proper, fun _ found => by cases found⟩

def WireName.alone (target : UInt16) (compressed : 0xC000 ≤ target) : WireName :=
  ⟨[], some target, List.forall_mem_nil _, fun _ found => by cases found; exact compressed⟩

def aliasResponse : Response where
  id := 7
  flags := 0x8180
  questions := [⟨.plain [[97]] (by decide), 1, 1⟩]
  answers := [⟨.alone 0xC00C (by decide), 5, 1, 60, [1, 98, 0], by decide, by decide⟩,
    ⟨.plain [[98]] (by decide), 1, 1, 60, [10, 0, 0, 9], by decide, by decide⟩]
  nscount := 0
  arcount := 0
  rest := []
  questionsFit := by decide
  answersFit := by decide
  response := by decide
  failed := fun wrong => absurd rfl wrong

theorem aliasResponse_message : Message ⟨aliasResponse.bytes, 0⟩ 51 aliasResponse.bytes :=
  ⟨⟨Nat.le_refl _, rfl⟩, rfl, by decide⟩

theorem dns_extraction_alias : firstA aliasResponse.answers = some ⟨10, 0, 0, 9⟩ ∧
    dnsReceive 52 pendingQuery pendingQuery.queryServer ⟨aliasResponse.bytes, 0⟩ 51 dnsPort =
      .ok (pendingQuery.take (firstA aliasResponse.answers)) :=
  ⟨rfl, (dns_extraction aliasResponse_message (Nat.le_refl 51) rfl).1
    ⟨Or.inl rfl, Or.inr ⟨Or.inr rfl, Or.inl rfl⟩⟩⟩

/-- The name `a.b`, whose end is in the question. -/
def mixedName : WireName := ⟨[[97]], some 0xC00E, by decide, fun _ found => by cases found; decide⟩

def mixedResponse : Response where
  id := 7
  flags := 0x8180
  questions := [⟨.plain [[97], [98]] (by decide), 1, 1⟩]
  answers := [⟨mixedName, 1, 1, 60, [10, 0, 0, 9], by decide, by decide⟩]
  nscount := 0
  arcount := 0
  rest := []
  questionsFit := by decide
  answersFit := by decide
  response := by decide
  failed := fun wrong => absurd rfl wrong

/-- The address is there, and is not taken. -/
theorem mixedResponse_unread : Message ⟨mixedResponse.bytes, 0⟩ 39 mixedResponse.bytes ∧
    mixedResponse.id = pendingQuery.queryId ∧ firstA mixedResponse.answers = some ⟨10, 0, 0, 9⟩ ∧
    dnsReceive 40 pendingQuery pendingQuery.queryServer ⟨mixedResponse.bytes, 0⟩ 39 dnsPort = .ok pendingQuery ∧
    pendingQuery ≠ pendingQuery.take (firstA mixedResponse.answers) :=
  ⟨⟨⟨Nat.le_refl _, rfl⟩, rfl, by decide⟩, rfl, rfl, by decide, by decide⟩

end RexOs.Net
