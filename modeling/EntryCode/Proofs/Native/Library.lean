import EntryCode.Native.Library
import EntryCode.Proofs.Interpreter.Enclosure
import EntryCode.Proofs.Machine.Memory
import EntryCode.Proofs.Native.Handler
import EntryCode.Proofs.Region.Heap
import EntryCode.Proofs.Table
import Mathlib

/-!
The library of signature handlers over whole sessions. Look-ups and other installations take turns
on one heap; a handler that was handed out stays where it is, and signatures share it exactly where
they agree.
-/

namespace EntryCode

section Keys

theorem BasicType.letter_injective : Function.Injective BasicType.letter := by
  intro s t
  cases s <;> cases t <;> simp [letter]

theorem BasicType.letter_ne_close (t : BasicType) : t.letter ≠ ')' := by
  cases t <;> decide

/-- A key spells the whole signature: no letter closes the list of parameters. -/
theorem Signature.key_inj {s t : Signature} {x y : Bool} : s.key x = t.key y ↔ s = t ∧ x = y := by
  constructor
  · intro same
    have letters := String.ofList_injective same
    simp only [List.cons_append, List.cons.injEq, true_and] at letters
    obtain ⟨kind, rest⟩ := letters
    have split : ∀ (ps qs : List BasicType) (p q : BasicType),
        ps.map BasicType.letter ++ [')', p.letter] = qs.map BasicType.letter ++ [')', q.letter] →
          ps = qs ∧ p = q := by
      intro ps
      induction ps with
      | nil =>
          rintro (_ | ⟨q, qs⟩) r r' equal
          · exact ⟨rfl, BasicType.letter_injective (by simpa using equal)⟩
          · exact absurd (List.cons.inj equal).1.symm q.letter_ne_close
      | cons p ps ih =>
          rintro (_ | ⟨q, qs⟩) r r' equal
          · exact absurd (List.cons.inj equal).1 p.letter_ne_close
          · obtain ⟨first, others⟩ := List.cons.inj equal
            obtain ⟨rfl, rfl⟩ := ih qs r r' others
            exact ⟨by rw [BasicType.letter_injective first], rfl⟩
    obtain ⟨params, result⟩ := split _ _ _ _ rest
    refine ⟨?_, ?_⟩
    · cases s
      cases t
      cases params
      cases result
      rfl
    · revert kind
      cases x <;> cases y <;> decide
  · rintro ⟨rfl, rfl⟩
    rfl

end Keys

section Sizes
variable {sig : Signature} {static : Bool} {rh : Dword} {e : Extensions} {code : Bytes}

theorem Handler.generate_length (made : generate sig static rh e = .ok code) :
    ∃ p, program sig static rh = .ok p ∧
      code.length = instructionSize * (Program.emissions 0 p).length := by
  obtain ⟨p, programmed, made⟩ := bind_ok.mp made
  refine ⟨p, programmed, ?_⟩
  cases ran : (do Program.run p; Emit.flush : Emit Bytes).run (.new e) with
  | error v a =>
      rw [ran] at made
      cases made
  | ok bytes a =>
      rw [ran] at made
      cases made
      obtain ⟨_, b, emitted, flushed⟩ := Emit.bind_ok.mp ran
      obtain ⟨-, rfl, -⟩ := Emit.flush_ok.mp flushed
      obtain ⟨inv, -⟩ := Program.emitted_new p emitted
      exact inv.code_length

theorem Handler.generate_nonempty (made : generate sig static rh e = .ok code) :
    0 < code.length := by
  obtain ⟨p, programmed, length⟩ := generate_length made
  obtain ⟨moves, -, rest⟩ := bind_ok.mp programmed
  have returns : Op.ret ∈ p := by
    cases rest
    simp
  obtain ⟨before, after, rfl⟩ := List.append_of_mem returns
  rw [Program.emissions_append, List.length_append, Program.emissions, List.length_append] at length
  have one : (Op.emissions (0 + Program.size 0 before) .ret).length = 1 := rfl
  rw [length, one, instructionSize]
  omega

theorem Handler.generate_extent {p : Program} (programmed : program sig static rh = .ok p)
    (made : generate sig static rh e = .ok code) : code.length ≤ instructionSize * p.extent := by
  obtain ⟨q, programmed', length⟩ := generate_length made
  obtain rfl := Except.ok.inj (programmed.symm.trans programmed')
  rw [length]
  exact Nat.mul_le_mul_left _ (p.emissions_extent 0)

end Sizes

namespace HandlerLibrary

section Lookups
variable {l : HandlerLibrary} {h : Heap} {sig : Signature} {static : Bool} {address : Dword}

theorem lookup_found (found : l.handlers.lookup (sig.key static) = some address) :
    (lookup sig static).run (l, h) = .ok address (l, h) := by
  simp only [lookup, EStateM.run_bind, EStateM.run_get, found, EStateM.run_pure]

/-- A signature that has no handler gets one where there is room for it. -/
theorem lookup_absent {code : Bytes} (absent : l.handlers.lookup (sig.key static) = none)
    (made : Handler.generate sig static (l.interpreter.resultHandler sig.result)
      l.interpreter.extensions = .ok code) (room : h.Room code.length) :
    (lookup sig static).run (l, h) = .ok h.nextAddress
      ({ l with handlers := l.handlers ++ [(sig.key static, h.nextAddress)] }, h.install code) := by
  have emitted : (Heap.emit fun _ => Handler.generate sig static
      (l.interpreter.resultHandler sig.result) l.interpreter.extensions).run h =
        .ok h.nextAddress (h.install code) := Heap.emit_room made room
  simp only [lookup, EStateM.run_bind, EStateM.run_get, absent]
  rw [EStateM.run, install, emitted]
  rfl

theorem lookup_refused {f : Region.Failure Violation} {k : Heap}
    (absent : l.handlers.lookup (sig.key static) = none)
    (refused : (Heap.emit fun _ => Handler.generate sig static
      (l.interpreter.resultHandler sig.result) l.interpreter.extensions).run h = .error f k) :
    (lookup sig static).run (l, h) = .error ⟨sig.key static, f⟩ (l, h) := by
  obtain ⟨-, rfl⟩ := Heap.emit_failed_iff.mp refused
  simp only [lookup, EStateM.run_bind, EStateM.run_get, absent]
  rw [EStateM.run, install, refused]

/-- The ways in which a look-up can end. -/
inductive Looks (l : HandlerLibrary) (h : Heap) (sig : Signature) (static : Bool) :
    EStateM.Result Error (HandlerLibrary × Heap) Dword → Prop where
  | found {address : Dword} (found : l.handlers.lookup (sig.key static) = some address) :
    Looks l h sig static (.ok address (l, h))
  | added {code : Bytes} (absent : l.handlers.lookup (sig.key static) = none)
    (made : Handler.generate sig static (l.interpreter.resultHandler sig.result)
      l.interpreter.extensions = .ok code) (room : h.Room code.length) :
    Looks l h sig static (.ok h.nextAddress
      ({ l with handlers := l.handlers ++ [(sig.key static, h.nextAddress)] }, h.install code))
  | refused (f : Region.Failure Violation) :
    Looks l h sig static (.error ⟨sig.key static, f⟩ (l, h))

theorem looks (l : HandlerLibrary) (h : Heap) (sig : Signature) (static : Bool) :
    Looks l h sig static ((lookup sig static).run (l, h)) := by
  cases found : l.handlers.lookup (sig.key static) with
  | some address =>
      rw [lookup_found found]
      exact .found found
  | none =>
      cases emitted : (Heap.emit fun _ => Handler.generate sig static
          (l.interpreter.resultHandler sig.result) l.interpreter.extensions).run h with
      | error f k =>
          rw [lookup_refused found emitted]
          exact .refused f
      | ok address k =>
          obtain ⟨code, made, room, -, -⟩ := Heap.emit_ok_iff.mp emitted
          rw [lookup_absent found made room]
          exact .added found made room

end Lookups

/-- What a heap is asked for: a handler, or a block of someone else. -/
inductive Request (ε : Type) where
  | handler (sig : Signature) (static : Bool)
  | block (gen : Dword → Except ε Bytes)

/-- A handler that was handed out. -/
structure Answer where
  signature : Signature
  static : Bool
  address : Dword

namespace Answer

def asked (x : Answer) : Signature × Bool := (x.signature, x.static)

def key (x : Answer) : String := x.signature.key x.static

theorem key_inj {x y : Answer} : x.key = y.key ↔ x.asked = y.asked := by
  rw [key, key, Signature.key_inj, asked, asked, Prod.mk.injEq]

end Answer

structure Session where
  library : HandlerLibrary
  heap : Heap
  answers : List Answer
  others : Nat

namespace Session

def start (i : Interpreter) (base capacity : Dword) : Session :=
  ⟨.new i, .new base capacity.toInt, [], 0⟩

section Serving
variable {ε : Type}

def serve (s : Session) : Request ε → Session
  | .handler sig static =>
    match (lookup sig static).run (s.library, s.heap) with
    | .ok address (library, heap) =>
      { s with library, heap, answers := s.answers ++ [⟨sig, static, address⟩] }
    | .error _ (library, heap) => { s with library, heap }
  | .block gen =>
    match (Heap.emit gen).run s.heap with
    | .ok _ heap => { s with heap, others := s.others + 1 }
    | .error _ heap => { s with heap }

def run (s : Session) (rs : List (Request ε)) : Session :=
  rs.foldl serve s

end Serving

section Answers
variable {ε : Type}

theorem run_concat (s : Session) (rs : List (Request ε)) (r : Request ε) :
    s.run (rs ++ [r]) = (s.run rs).serve r :=
  List.foldl_concat ..

theorem answers_block (s : Session) (gen : Dword → Except ε Bytes) :
    (s.serve (.block gen)).answers = s.answers := by
  rw [serve]
  cases (Heap.emit gen).run s.heap <;> rfl

theorem answers_first {i : Interpreter} {base capacity : Dword} {sig : Signature} {static : Bool}
    {code : Bytes} (made : Handler.generate sig static (i.resultHandler sig.result) i.extensions =
      .ok code) (room : (code.length : Int) ≤ capacity.toInt) :
    ((start i base capacity).run [(.handler sig static : Request ε)]).answers =
      [⟨sig, static, base⟩] := by
  have offset : (Heap.new base capacity.toInt).nextOffset = 0 := show Region.alignUp 0 = 0 by decide
  have next : (Heap.new base capacity.toInt).nextAddress = base := by
    rw [Heap.nextAddress, offset]
    exact BitVec.add_zero _
  have free : (Heap.new base capacity.toInt).Room code.length := by
    rw [Heap.Room, offset]
    exact room.trans_eq (Int.sub_zero _).symm
  have looked := lookup_absent (l := .new i) rfl made free
  rw [← List.nil_append [_], run_concat, run, List.foldl_nil, serve, start, looked, next]
  rfl

end Answers

/-- The code that an answer stands for lies at its address. -/
structure Kept (i : Interpreter) (h : Heap) (x : Answer) (code : Bytes) : Prop where
  made : Handler.generate x.signature x.static (i.resultHandler x.signature.result)
    i.extensions = .ok code
  inside : (x.address - h.base).toNat + code.length ≤ h.used
  held : h.read (x.address - h.base).toNat code.length = code

/-- What holds in every session. -/
structure Sound (i : Interpreter) (base capacity : Dword) (s : Session) : Prop where
  interpreter : s.library.interpreter = i
  base : s.heap.base = base
  capacity : s.heap.capacity = capacity.toInt
  bounded : s.heap.used < 2 ^ 63
  listed : ∀ x ∈ s.answers, (x.key, x.address) ∈ s.library.handlers
  answered : ∀ h ∈ s.library.handlers, ∃ x ∈ s.answers, h = (x.key, x.address)
  keys : (s.library.handlers.map Prod.fst).Nodup
  addresses : (s.library.handlers.map Prod.snd).Nodup
  kept : ∀ x ∈ s.answers, ∃ code, Kept i s.heap x code
  blocks : s.heap.blocks.length = s.library.size + s.others

variable {i : Interpreter} {base capacity : Dword} {s : Session}

theorem start_sound : (start i base capacity).Sound i base capacity where
  interpreter := rfl
  base := rfl
  capacity := rfl
  bounded := by
    rw [start, Heap.used, Heap.new, List.length_nil]
    omega
  listed := nofun
  answered := nofun
  keys := List.nodup_nil
  addresses := List.nodup_nil
  kept := nofun
  blocks := rfl

section Steps

theorem Kept.install {h : Heap} {x : Answer} {code : Bytes} (kept : Kept i h x code)
    (more : Bytes) : Kept i (h.install more) x code := by
  have behind := h.used_le_next
  have inside := kept.inside
  refine ⟨kept.made, ?_, ?_⟩
  · rw [Heap.used_install]
    exact (inside.trans behind).trans (Nat.le_add_right _ _)
  · exact (Heap.read_install_old h more inside).trans kept.held

variable (sound : s.Sound i base capacity)
include sound

/-- A look-up finds exactly what was handed out before. -/
theorem Sound.found {key : String} {address : Dword} :
    s.library.handlers.lookup key = some address ↔ (key, address) ∈ s.library.handlers :=
  Table.lookup_iff_mem sound.keys

theorem Sound.room {size : Nat} (room : s.heap.Room size) : s.heap.nextOffset + size < 2 ^ 63 := by
  rw [Heap.Room, sound.capacity] at room
  have top := capacity.toInt_lt
  omega

theorem Sound.offset {size : Nat} (room : s.heap.Room size) :
    (s.heap.nextAddress - s.heap.base).toNat = s.heap.nextOffset := by
  have bound := sound.room room
  exact s.heap.next_address_offset (by omega)

theorem Sound.installs {code : Bytes} (room : s.heap.Room code.length) :
    Sound i base capacity
      { s with heap := s.heap.install code, others := s.others + 1 } where
  interpreter := sound.interpreter
  base := sound.base
  capacity := sound.capacity
  bounded := by
    rw [Heap.used_install]
    exact sound.room room
  listed := sound.listed
  answered := sound.answered
  keys := sound.keys
  addresses := sound.addresses
  kept x member := by
    obtain ⟨held, kept⟩ := sound.kept x member
    exact ⟨held, kept.install code⟩
  blocks := by
    rw [Heap.install, List.length_append, sound.blocks, List.length_singleton, Nat.add_assoc]

/-- A signature that was answered is answered again, and nothing is installed. -/
theorem Sound.repeats {sig : Signature} {static : Bool} {address : Dword}
    (found : s.library.handlers.lookup (sig.key static) = some address) :
    Sound i base capacity { s with answers := s.answers ++ [⟨sig, static, address⟩] } := by
  have member := sound.found.mp found
  -- The answer is one that was given before.
  obtain ⟨x, before, same⟩ := sound.answered _ member
  obtain ⟨named, rfl⟩ := Prod.mk.inj same
  obtain ⟨rfl, rfl⟩ := Signature.key_inj.mp named
  refine { sound with listed := ?_, answered := ?_, kept := ?_ }
  · intro y inside
    rcases List.mem_append.mp inside with earlier | here
    · exact sound.listed y earlier
    · rw [List.mem_singleton.mp here]
      exact member
  · intro h inside
    obtain ⟨y, earlier, rfl⟩ := sound.answered h inside
    exact ⟨y, List.mem_append_left _ earlier, rfl⟩
  · intro y inside
    rcases List.mem_append.mp inside with earlier | here
    · exact sound.kept y earlier
    · rw [List.mem_singleton.mp here]
      exact sound.kept x before

theorem Sound.fresh {size : Nat} (room : s.heap.Room size) :
    s.heap.nextAddress ∉ s.library.handlers.map Prod.snd := by
  intro taken
  obtain ⟨h, member, same⟩ := List.mem_map.mp taken
  obtain ⟨x, before, rfl⟩ := sound.answered h member
  obtain ⟨code, kept⟩ := sound.kept x before
  have inside := kept.inside
  have nonempty := Handler.generate_nonempty kept.made
  have behind := s.heap.used_le_next
  have offset : (x.address - s.heap.base).toNat = s.heap.nextOffset := by
    rw [show x.address = s.heap.nextAddress from same, sound.offset room]
  omega

/-- A signature that was not asked for before gets a handler of its own. -/
theorem Sound.adds {sig : Signature} {static : Bool} {code : Bytes}
    (absent : s.library.handlers.lookup (sig.key static) = none)
    (made : Handler.generate sig static (i.resultHandler sig.result) i.extensions = .ok code)
    (room : s.heap.Room code.length) :
    Sound i base capacity
      { s with
        library := { s.library with
          handlers := s.library.handlers ++ [(sig.key static, s.heap.nextAddress)] }
        heap := s.heap.install code
        answers := s.answers ++ [⟨sig, static, s.heap.nextAddress⟩] } := by
  -- The key is new by the failed look-up, the address because the block lies behind all others.
  have unlisted : sig.key static ∉ s.library.handlers.map Prod.fst := by
    intro taken
    obtain ⟨h, member, same⟩ := List.mem_map.mp taken
    have apart := List.lookup_eq_none_iff.mp absent h member
    rw [← same] at apart
    simp at apart
  refine ⟨sound.interpreter, sound.base, sound.capacity, ?_, ?_, ?_, ?_, ?_, ?_, ?_⟩
  · rw [Heap.used_install]
    exact sound.room room
  · intro x inside
    rcases List.mem_append.mp inside with earlier | here
    · exact List.mem_append_left _ (sound.listed x earlier)
    · rw [List.mem_singleton.mp here]
      exact List.mem_append_right _ List.mem_cons_self
  · intro h inside
    rcases List.mem_append.mp inside with earlier | here
    · obtain ⟨x, before, rfl⟩ := sound.answered h earlier
      exact ⟨x, List.mem_append_left _ before, rfl⟩
    · rw [List.mem_singleton.mp here]
      exact ⟨_, List.mem_append_right _ List.mem_cons_self, rfl⟩
  · rw [List.map_append]
    exact sound.keys.append (List.nodup_singleton _) (List.disjoint_singleton.mpr unlisted)
  · rw [List.map_append]
    exact sound.addresses.append (List.nodup_singleton _)
      (List.disjoint_singleton.mpr (sound.fresh room))
  · intro x inside
    rcases List.mem_append.mp inside with earlier | here
    · obtain ⟨held, kept⟩ := sound.kept x earlier
      exact ⟨held, kept.install code⟩
    · rw [List.mem_singleton.mp here]
      have offset := sound.offset room
      refine ⟨code, made, ?_, ?_⟩
      · rw [Heap.used_install]
        exact (congrArg (· + code.length) offset).le
      · change (s.heap.install code).read (s.heap.nextAddress - s.heap.base).toNat _ = _
        rw [offset, Heap.read_install_new]
  · rw [Heap.install, size, List.length_append, List.length_append, sound.blocks, size]
    simp only [List.length_singleton]
    omega

end Steps

theorem Sound.serve {ε : Type} (sound : s.Sound i base capacity) (r : Request ε) :
    (s.serve r).Sound i base capacity := by
  cases r with
  | block gen =>
      cases emitted : (Heap.emit gen).run s.heap with
      | error failure heap =>
          obtain ⟨-, rfl⟩ := Heap.emit_failed_iff.mp emitted
          simpa only [Session.serve, emitted] using sound
      | ok address heap =>
          obtain ⟨code, -, room, -, rfl⟩ := Heap.emit_ok_iff.mp emitted
          simpa only [Session.serve, emitted] using sound.installs room
  | handler sig static =>
      have ended := looks s.library s.heap sig static
      rw [Session.serve]
      generalize (lookup sig static).run (s.library, s.heap) = looked at ended
      cases ended with
      | found found => exact sound.repeats found
      | added absent made room => exact sound.adds absent (sound.interpreter ▸ made) room
      | refused f => exact sound

theorem Sound.run {ε : Type} (rs : List (Request ε)) (sound : s.Sound i base capacity) :
    (s.run rs).Sound i base capacity := by
  induction rs generalizing s with
  | nil => exact sound
  | cons r rs ih => exact ih (sound.serve r)

section Results
variable (sound : s.Sound i base capacity)
include sound

theorem Sound.answers_alike {x : Answer} (member : x ∈ s.answers) :
    (lookup x.signature x.static).run (s.library, s.heap) = .ok x.address (s.library, s.heap) :=
  lookup_found (sound.found.mpr (sound.listed x member))

theorem Sound.answers_again {ε : Type} {sig : Signature} {static : Bool} {address : Dword}
    (member : ⟨sig, static, address⟩ ∈ s.answers) :
    (s.serve (.handler sig static : Request ε)).answers =
      s.answers ++ [⟨sig, static, address⟩] := by
  rw [Session.serve, sound.answers_alike member]

theorem Sound.shares {x y : Answer} (first : x ∈ s.answers) (second : y ∈ s.answers) :
    x.address = y.address ↔ x.asked = y.asked := by
  have left := sound.listed x first
  have right := sound.listed y second
  rw [← Answer.key_inj]
  constructor
  · intro same
    exact (Prod.mk.inj (List.inj_on_of_nodup_map sound.addresses left right same)).1
  · intro same
    exact (Prod.mk.inj (List.inj_on_of_nodup_map sound.keys left right same)).2

theorem Sound.counts : s.library.size = (s.answers.map Answer.asked).dedup.length := by
  have injective : Function.Injective fun q : Signature × Bool => q.1.key q.2 := by
    intro p q same
    obtain ⟨first, second⟩ := Signature.key_inj.mp same
    exact Prod.ext first second
  have spelled : (s.answers.map Answer.asked).map (fun q => q.1.key q.2) =
      s.answers.map Answer.key := by
    rw [List.map_map]
    rfl
  have perm : (s.library.handlers.map Prod.fst).Perm (s.answers.map Answer.key).dedup := by
    rw [List.perm_ext_iff_of_nodup sound.keys (List.nodup_dedup _)]
    intro key
    rw [List.mem_dedup]
    constructor
    · intro listed
      obtain ⟨h, member, rfl⟩ := List.mem_map.mp listed
      obtain ⟨x, before, rfl⟩ := sound.answered h member
      exact List.mem_map_of_mem before
    · intro asked
      obtain ⟨x, before, rfl⟩ := List.mem_map.mp asked
      exact List.mem_map.mpr ⟨_, sound.listed x before, rfl⟩
  have length := perm.length_eq
  rwa [List.length_map, ← spelled, List.dedup_map_of_injective injective, List.length_map] at length

end Results

end Session

end HandlerLibrary

open HandlerLibrary in
/-- Handlers are shared and kept. In every session, two answers are the same address exactly for the
same parameters, result and kind of method; each of them still holds its handler; and there is one
block for each of the signatures that were answered. With room for its handler a signature is always
answered, and where it is not, nothing has changed. -/
theorem handlers_are_shared_and_kept (i : Interpreter) (base capacity : Dword) {ε : Type}
    (rs : List (Request ε)) :
    let s := (Session.start i base capacity).run rs
    (∀ x ∈ s.answers, ∀ y ∈ s.answers, x.address = y.address ↔
      x.signature.params = y.signature.params ∧ x.signature.result = y.signature.result ∧
        x.static = y.static) ∧
    (∀ x ∈ s.answers, ∃ code, Handler.generate x.signature x.static
        (i.resultHandler x.signature.result) i.extensions = .ok code ∧
      (s.heap.bytes.drop (x.address - base).toNat).take code.length = code) ∧
    (∀ x ∈ s.answers, (lookup x.signature x.static).run (s.library, s.heap) =
      .ok x.address (s.library, s.heap)) ∧
    s.library.size = (s.answers.map fun x => (x.signature, x.static)).dedup.length ∧
    s.heap.blocks.length = s.library.size + s.others ∧
    (∀ sig static code, Handler.generate sig static (i.resultHandler sig.result) i.extensions =
      .ok code → s.heap.Room code.length →
        ∃ address after, (lookup sig static).run (s.library, s.heap) = .ok address after) ∧
    ∀ sig static failure after, (lookup sig static).run (s.library, s.heap) = .error failure after →
      after = (s.library, s.heap) ∧ s.serve (.handler sig static : Request ε) = s := by
  intro s
  have sound : s.Sound i base capacity := Session.start_sound.run rs
  refine ⟨?_, ?_, ?_, sound.counts, sound.blocks, ?_, ?_⟩
  · intro x first y second
    rw [sound.shares first second, Answer.asked, Answer.asked, Prod.mk.injEq]
    constructor
    · rintro ⟨same, kind⟩
      exact ⟨by rw [same], by rw [same], kind⟩
    · rintro ⟨params, result, kind⟩
      refine ⟨?_, kind⟩
      cases hx : x.signature
      cases hy : y.signature
      simp_all
  · intro x member
    obtain ⟨code, kept⟩ := sound.kept x member
    refine ⟨code, kept.made, ?_⟩
    have held := kept.held
    rwa [sound.base] at held
  · intro x member
    exact sound.answers_alike member
  · intro sig static code made room
    rw [← sound.interpreter] at made
    cases found : s.library.handlers.lookup (sig.key static) with
    | some address => exact ⟨_, _, lookup_found found⟩
    | none => exact ⟨_, _, lookup_absent found made room⟩
  · intro sig static failure after failed
    have ended := looks s.library s.heap sig static
    rw [failed] at ended
    cases ended with
    | refused f => exact ⟨rfl, by simp only [Session.serve, failed]⟩

open HandlerLibrary in
/-- A second request is answered with the first handler, whatever was installed since. -/
theorem repeated_requests_share_a_handler : ∃ i h,
    (Interpreter.generate .reference .all).run (.new 0x40000000 0x20000) = .ok i h ∧
      let s := (Session.start i 0x50000000 0x1000).run
        [.handler ⟨[], .int⟩ true, .block fun _ => (.ok [0x13, 0, 0, 0] : Except Empty Bytes),
          .handler ⟨[], .int⟩ true]
      s.answers.map Answer.address = [0x50000000, 0x50000000] ∧ s.library.size = 1 := by
  obtain ⟨b, -, made⟩ := Interpreter.generate_in_room
    (show Config.reference.problem? = none by decide) .all (.new 0x40000000 0x20000) (by decide)
  generalize b.installed .all (Heap.new 0x40000000 0x20000).nextAddress = i at made
  obtain ⟨-, c, -, -, -, generated⟩ := Handler.generates (e := i.extensions) (i.resultHandler .int)
    ⟨[], .int⟩ true rfl nofun
  have short : c.code.length ≤ 48 := Handler.generate_extent
    (show Handler.program ⟨[], .int⟩ true (i.resultHandler .int) = .ok _ from rfl) generated
  let gen : Dword → Except Empty Bytes := fun _ => .ok [0x13, 0, 0, 0]
  let asked : Request Empty := .handler ⟨[], .int⟩ true
  have first : ((Session.start i 0x50000000 0x1000).run [asked]).answers =
      [⟨⟨[], .int⟩, true, 0x50000000⟩] :=
    Session.answers_first generated (show (c.code.length : Int) ≤ 0x1000 by omega)
  have second : ((Session.start i 0x50000000 0x1000).run ([asked] ++ [.block gen])).answers =
      [⟨⟨[], .int⟩, true, 0x50000000⟩] := by
    rw [Session.run_concat, Session.answers_block, first]
  have third : ((Session.start i 0x50000000 0x1000).run
      ([asked] ++ [.block gen] ++ [asked])).answers =
        [⟨⟨[], .int⟩, true, 0x50000000⟩, ⟨⟨[], .int⟩, true, 0x50000000⟩] := by
    have sound : Session.Sound i 0x50000000 0x1000 _ :=
      Session.start_sound.run ([asked] ++ [.block gen])
    rw [Session.run_concat, sound.answers_again (by rw [second]; exact List.mem_cons_self), second]
    rfl
  obtain ⟨-, -, -, count, -⟩ := handlers_are_shared_and_kept i 0x50000000 0x1000
    ([asked] ++ [.block gen] ++ [asked])
  rw [third] at count
  exact ⟨i, _, made, congrArg (List.map Answer.address) third, count⟩

end EntryCode
