import ClassEngine.Proofs.ClassFile.Taking

/-!
# Class files are prefix-free

A parser that succeeds has read as many bytes as it needs: it reads them to the same value whatever
follows, and when some of them are cut off at the end it fails for want of data.  So no class file
starts another.  Every fault that is reported is one of malformed class files.
-/

namespace ClassEngine.ClassFile

namespace Parser

variable {α β σ : Type} {p : Parser α} {bs xs ys : List UInt8} {a : α}

/-- The parser reads the bytes to the value, and it wants all of them. -/
structure Exact (p : Parser α) (bs : List UInt8) (a : α) : Prop where
  reads : Reads p bs (some a)
  wants : ∀ count < bs.length, ∀ offset, ∃ e,
    p ⟨offset, bs.take count⟩ = .error e ∧ e.kind = .truncated

theorem Exact.bind {f : α → Parser β} {b : β} (hp : Exact p xs a) (hf : Exact (f a) ys b) :
    Exact (p >>= f) (xs ++ ys) b where
  reads := hp.reads.bind hf.reads
  wants count hcount offset := by
    rw [bind_apply]
    by_cases hfirst : count < xs.length
    · obtain ⟨e, he, hkind⟩ := hp.wants count hfirst offset
      rw [List.take_append_of_le_length (Nat.le_of_lt hfirst), he]
      exact ⟨e, rfl, hkind⟩
    · have hsecond : count - xs.length < ys.length := by
        rw [List.length_append] at hcount
        omega
      rw [List.take_append, List.take_of_length_le (Nat.le_of_not_lt hfirst), hp.reads]
      exact hf.wants _ hsecond _

/-- How much is read is settled by what is read. -/
class Definite (p : Parser α) : Prop where
  takes : Takes p (Exact p)

theorem exact_nothing (h : Reads p [] (some a)) : Exact p [] a := ⟨h, nofun⟩

instance (a : α) : Definite (pure a : Parser α) :=
  ⟨takes_pure (exact_nothing (reads_pure a))⟩

instance (e : ParseError) : Definite (fail e : Parser α) := ⟨takes_fail e⟩

instance (r : Except ParseError α) : Definite (lift r) :=
  ⟨takes_lift fun _ h => exact_nothing (reads_lift h)⟩

instance (r : Except PoolError α) : Definite (fromPool r) := by
  rw [fromPool]
  infer_instance

instance {f : α → Parser β} [hp : Definite p] [hf : ∀ a, Definite (f a)] :
    Definite (p >>= f) where
  takes := hp.takes.bind fun _ a hused => (hf a).takes.mono fun _ _ hmore => hused.bind hmore

instance (e : ParseError) (f : α → Parser β) : Definite (fail e >>= f) := ⟨⟨nofun⟩⟩

instance {c : Prop} [Decidable c] {q : Parser α} [hp : Definite p] [hq : Definite q] :
    Definite (if c then p else q) := by
  split
  · exact hp
  · exact hq

instance (place : Place) [hp : Definite p] : Definite (Parser.within place p) where
  takes := by
    refine (hp.takes.mono fun used a hused => ?_).within
    refine ⟨hused.reads.within place, fun count hcount offset => ?_⟩
    obtain ⟨e, he, hkind⟩ := hused.wants count hcount offset
    exact ⟨.within place e, by rw [Parser.within, he], hkind⟩

/-! ## Words -/

instance : Definite u1 where
  takes := takes_u1.mono fun _ b hused => by
    subst hused
    refine ⟨reads_u1 b, fun count hcount offset => ?_⟩
    obtain rfl : count = 0 := Nat.lt_one_iff.mp hcount
    exact ⟨_, rfl, rfl⟩

instance : Definite u2 where
  takes := takes_u2.mono fun _ w hused => by
    subst hused
    refine ⟨reads_u2 w, fun count hcount offset => ?_⟩
    match count, hcount with
    | 0, _ | 1, _ => exact ⟨_, rfl, rfl⟩

instance : Definite u4 where
  takes := takes_u4.mono fun _ w hused => by
    subst hused
    refine ⟨reads_u4 w, fun count hcount offset => ?_⟩
    match count, hcount with
    | 0, _ | 1, _ | 2, _ | 3, _ => exact ⟨_, rfl, rfl⟩

instance : Definite u8 where
  takes := by
    refine ⟨fun {input w _} hok => ?_⟩
    obtain ⟨offset, rest⟩ := input
    rcases rest with _ | ⟨a, _ | ⟨b, _ | ⟨c, _ | ⟨d, _ | ⟨e, _ | ⟨f, _ | ⟨g, _ | ⟨h, rest⟩⟩⟩⟩⟩⟩⟩⟩
    case cons.cons.cons.cons.cons.cons.cons.cons =>
      cases hok
      refine ⟨[a, b, c, d, e, f, g, h], rfl, fun _ _ => rfl, fun count hcount offset => ?_⟩
      match count, hcount with
      | 0, _ | 1, _ | 2, _ | 3, _ | 4, _ | 5, _ | 6, _ | 7, _ => exact ⟨_, rfl, rfl⟩
    all_goals cases hok

instance (count : Nat) : Definite (bytes count) where
  takes := (takes_bytes count).mono fun used bs ⟨hused, hlength⟩ => by
    subst hused hlength
    refine ⟨reads_bytes used, fun count hcount offset => ⟨_, if_pos ?_, rfl⟩⟩
    rw [List.length_take, List.length_take]
    omega

/-! ## Repetition -/

instance {parse : Nat → Parser α} [h : ∀ i, Definite (parse i)] (index count : Nat) :
    Definite (rounds parse index count) := by
  induction count generalizing index with
  | zero =>
      rw [rounds]
      infer_instance
  | succ count ih =>
      rw [rounds]
      infer_instance

instance {parse : Nat → Parser α} [∀ i, Definite (parse i)] : Definite (table parse) := by
  rw [table]
  infer_instance

/-! ## Constants -/

instance (tag : UInt8) : Definite (constant tag) := by
  rw [constant]
  split <;> infer_instance

instance (slots : Array (Option Constant)) (count : Nat) : Definite (poolSlots slots count) := by
  induction slots, count using poolSlots.induct with
  | case1 slots =>
      rw [poolSlots]
      infer_instance
  | case2 slots =>
      rw [poolSlots]
      infer_instance
  | case3 slots left hwide hnarrow =>
      rw [poolSlots]
      infer_instance

instance : Definite pool := by
  rw [pool]
  infer_instance

/-! ## Attributes -/

variable {p : Pool} {interpret : String → List UInt8 → σ → Except ParseError σ}

instance (name : String) (length : Nat) : Definite (do
    let left ← remaining
    if left < length then fail (.attributeOverrun name length left)
    return (name, ← bytes length) : Parser (String × List UInt8)) where
  takes := by
    refine ⟨fun {input r _} hok => ?_⟩
    rw [sized_apply] at hok
    split at hok
    · cases hok
    · rename_i hlong
      cases hok
      have hlength : (input.rest.take length).length = length := by
        rw [List.length_take]
        omega
      refine ⟨_, (List.take_append_drop length input.rest).symm, fun offset rest => ?_,
        fun count hcount offset => ?_⟩
      · have hall : ¬ (input.rest.take length ++ rest).length < length := by
          rw [List.length_append]
          omega
        rw [sized_apply, if_neg hall]
        dsimp only
        rw [List.take_left' hlength, List.drop_left' hlength, hlength]
      · have hcut : ((input.rest.take length).take count).length < length := by
          rw [List.length_take]
          omega
        rw [sized_apply, if_pos hcut]
        exact ⟨_, rfl, rfl⟩

instance : Definite (rawAttribute p) := by
  rw [rawAttribute]
  infer_instance

instance (s : σ) (count : Nat) : Definite (attributeRounds p interpret s count) := by
  induction count generalizing s with
  | zero =>
      rw [attributeRounds]
      infer_instance
  | succ count ih =>
      rw [attributeRounds]
      infer_instance

instance (s : σ) : Definite (attributes p interpret s) := by
  rw [attributes]
  infer_instance

/-! ## Members -/

instance : Definite (memberHeader p) := by
  rw [memberHeader]
  infer_instance

instance (index : Nat) : Definite (field p index) := by
  rw [field]
  infer_instance

instance (index : Nat) : Definite (method p index) := by
  rw [method]
  infer_instance

/-! ## Whole files -/

instance (name : String) : Definite (superName p name) := by
  rw [superName]
  infer_instance

instance (index : Nat) : Definite (interfaceName p index) := by
  rw [interfaceName]
  infer_instance

instance : Definite classFile := by
  rw [classFile]
  infer_instance

end Parser

/-! ## Faults -/

/-- The kinds of fault that a fault of this kind is, the most special first. -/
def FaultKind.chain : FaultKind → List FaultKind
  | .malformed => [.malformed]
  | kind => [kind, .malformed]

namespace ParseError

def places : ParseError → List Place
  | .within place cause => place :: cause.places
  | _ => []

/-- Whether a fault, or one that it passes on, is of a kind. -/
def belongs (e : ParseError) (kind : FaultKind) : Bool := kind ∈ e.kind.chain

theorem belongs_malformed (e : ParseError) : e.belongs .malformed = true := by
  rw [belongs]
  cases e.kind <;> rfl

theorem heading_eq (kind : FaultKind) :
    ∃ special, kind.heading = FaultKind.malformed.heading ++ special := by
  cases kind
  · exact ⟨": invalid magic number", by decide⟩
  · exact ⟨": unsupported version", by decide⟩
  · exact ⟨": unexpected end of data", by decide⟩
  · exact ⟨": bad constant pool entry", by decide⟩
  · exact ⟨": bad descriptor", by decide⟩
  · exact ⟨"", by decide⟩

/-- A message names the places, and then it tells the fault. -/
def located (e : ParseError) (text : String) : String :=
  e.places.foldr (fun place text => place.render ++ ": " ++ text) text

theorem message_eq (e : ParseError) :
    e.message = e.located (e.kind.heading ++ ": " ++ e.detail) := by
  induction e with
  | within place cause ih =>
      rw [message, ih]
      rfl
  | _ => rfl

theorem message_malformed (e : ParseError) :
    ∃ rest, e.message = e.located (FaultKind.malformed.heading ++ rest) := by
  obtain ⟨special, hspecial⟩ := heading_eq e.kind
  refine ⟨special ++ (": " ++ e.detail), ?_⟩
  rw [message_eq, hspecial, String.append_assoc, String.append_assoc]

end ParseError

/-! ## Whole files -/

section

variable {bs : List UInt8} {file : ClassFile}

theorem exact_of_parse (h : parse bs = .ok file) : Parser.Exact Parser.classFile bs file :=
  Parser.Definite.takes.of_runOn h

/-- A class file that is cut off is refused for want of data. -/
theorem parse_cut (h : parse bs = .ok file) {cut : List UInt8} (hcut : cut <+: bs)
    (hne : cut ≠ bs) : ∃ e, parse cut = .error e ∧ e.kind = .truncated := by
  have hlength : cut.length < bs.length := by
    refine Nat.lt_of_le_of_ne hcut.length_le fun heq => hne ?_
    exact hcut.eq_of_length heq
  obtain ⟨e, he, hkind⟩ := (exact_of_parse h).wants cut.length hlength 0
  rw [← List.prefix_iff_eq_take.mp hcut] at he
  exact ⟨e, by rw [parse, Parser.runOn, he], hkind⟩

/-- What follows a class file is refused, and counted. -/
theorem parse_append (h : parse bs = .ok file) {more : List UInt8} (hne : more ≠ []) :
    parse (bs ++ more) = .error (.trailing more.length) := by
  have hread := (exact_of_parse h).reads 0 more
  have hmore : more.isEmpty = false := by simpa using hne
  rw [parse, Parser.runOn, hread]
  simp only [hmore]
  rfl

end

/-- No class file starts another, and what is not one is refused as a malformed class file. -/
theorem parse_prefix_free :
    (∀ bs file, parse bs = .ok file →
      (∀ cut, cut <+: bs → cut ≠ bs → ∃ e, parse cut = .error e ∧ e.kind = .truncated) ∧
        ∀ more, more ≠ [] → parse (bs ++ more) = .error (.trailing more.length)) ∧
      ∀ bs e, parse bs = .error e → e.belongs .malformed = true ∧
        ∃ rest, e.message = e.located (FaultKind.malformed.heading ++ rest) :=
  ⟨fun _ _ h => ⟨fun _ => parse_cut h, fun _ => parse_append h⟩,
    fun _ e _ => ⟨e.belongs_malformed, e.message_malformed⟩⟩

/-! ## The root class alone -/

namespace RootAlone

def bytes : List UInt8 := [
  0xca, 0xfe, 0xba, 0xbe, 0x00, 0x00, 0x00, 0x34, 0x00, 0x03, 0x01, 0x00, 0x10, 0x6a, 0x61, 0x76,
  0x61, 0x2f, 0x6c, 0x61, 0x6e, 0x67, 0x2f, 0x4f, 0x62, 0x6a, 0x65, 0x63, 0x74, 0x07, 0x00, 0x01,
  0x00, 0x21, 0x00, 0x02, 0x00, 0x00, 0x00, 0x00, 0x00, 0x00, 0x00, 0x00, 0x00, 0x00]

def file : ClassFile where
  version := ⟨52, 0⟩
  pool := ⟨#[none, some (.utf8 rootClassName), some (.classRef 1)]⟩
  flags := 0x0021
  name := rootClassName
  superName := ""
  interfaces := []
  fields := []
  methods := []
  sourceFile := ""

theorem parse_prefix_free_bytes :
    parse bytes = .ok file ∧ (∃ e, parse (bytes.take 45) = .error e ∧ e.kind = .truncated) ∧
      parse (bytes ++ [0]) = .error (.trailing 1) ∧
        ∃ rest, (ParseError.trailing 1).message = "malformed class file" ++ rest := by
  have hparse : parse bytes = .ok file := by decide +kernel
  obtain ⟨hfree, hmalformed⟩ := parse_prefix_free
  obtain ⟨hcut, hmore⟩ := hfree bytes file hparse
  have hrefused := hmore [0] (by decide)
  exact ⟨hparse, hcut _ (List.take_prefix 45 bytes) (by decide), hrefused,
    (hmalformed _ _ hrefused).2⟩

end RootAlone

end ClassEngine.ClassFile
