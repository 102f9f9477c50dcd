import TwinHeap.EdgeGraph.Text
import TwinHeap.Proofs.Json.Sequences
import TwinHeap.Proofs.Json.Spelling
import TwinHeap.Proofs.Table.Lookups

/-! Which texts are edge graphs. The grammar says how a text spells its members, in their order and
with their names unescaped; `Admitted` says which members make a graph, and `Denotes` which one. -/
namespace TwinHeap.EdgeGraph

open Json (Token scan Blanks Spelled Enclosed Lexed moreUnits enclosedUnits punctuation?)

/-- Every slot of a list fits into 32 bits. -/
def Fits (slots : List ImportKey) : Prop := ∀ j ∈ slots, j.number < slotLimit

instance (slots : List ImportKey) : Decidable (Fits slots) :=
  inferInstanceAs (Decidable (∀ j ∈ slots, j.number < slotLimit))

/-- A slot number is an integer literal without a sign. With one it is negative, and minus zero is
a floating-point number. -/
def Numeral (s : List Char) (j : ImportKey) (rest : List Char) : Prop :=
  j.number < slotLimit ∧ Blanks s (Nat.toDigits 10 j.number ++ rest)

/-- A name, a colon and a list of slot numbers. -/
def Member (s : List Char) (m : List Char × List ImportKey) (rest : List Char) : Prop :=
  ∃ a b c, Blanks s ('"' :: a) ∧ Spelled a m.1 b ∧ Blanks b (':' :: c) ∧
    Enclosed Numeral '[' ']' c m.2 rest

/-- A text is one object, with nothing but blank space around it. -/
def Document (s : List Char) (ms : List (List Char × List ImportKey)) : Prop :=
  ∃ rest, Enclosed Member '\x7b' '\x7d' s ms rest ∧ Blanks rest []

/-- No name occurs twice, and the names are those of the root and of slots. A slot has no name but
its number in plain decimal. -/
structure WellNamed (ms : List (List Char × List ImportKey)) : Prop where
  distinct : (ms.map Prod.fst).Nodup
  numbered : ∀ m ∈ ms, m.1 ≠ rootName → ∃ n < slotLimit, m.1 = Nat.toDigits 10 n

/-- The members of a graph: the root is one of them. -/
structure Admitted (ms : List (List Char × List ImportKey)) : Prop extends WellNamed ms where
  rooted : rootName ∈ ms.map Prod.fst

def slotMember (e : ExportKey × List ImportKey) : List Char × List ImportKey :=
  (Nat.toDigits 10 e.1.number, e.2)

/-- The graph has the root of the members, and the other members as edges in their order. -/
structure Denotes (ms : List (List Char × List ImportKey)) (g : EdgeGraph) : Prop where
  root : (rootName, g.root) ∈ ms
  edges : g.edges.entries.map slotMember = ms.filter fun m => m.1 ≠ rootName

def slotUnits (j : ImportKey) (ts : List Token) : List Token := .number (some j.number) :: ts

def listUnits : List ImportKey → List Token → List Token :=
  enclosedUnits slotUnits .openBracket .closeBracket

def memberUnits (m : List Char × List ImportKey) (ts : List Token) : List Token :=
  .text m.1 :: .colon :: listUnits m.2 ts

theorem lexed_numeral : Lexed Numeral (fun j => j.number < slotLimit) slotUnits := by
  refine ⟨fun numeral => numeral.1, ?_, ?_⟩
  · intro s t j numeral ends
    rw [Json.scan_blanks numeral.2, Json.scan_digits numeral.1 ends, slotUnits]
  · intro s j ts fits scanned
    obtain ⟨rest, blanks, later⟩ := Json.scan_eq_number scanned
    exact ⟨rest, ⟨fits, blanks⟩, later⟩

theorem lexed_list : Lexed (Enclosed Numeral '[' ']') Fits listUnits :=
  lexed_numeral.enclosed rfl rfl

theorem lexed_member : Lexed Member (fun m => Fits m.2) memberUnits := by
  have colon : punctuation? ':' = some .colon := rfl
  refine ⟨?_, ?_, ?_⟩
  · rintro s t m ⟨a, b, c, -, -, -, list⟩
    exact lexed_list.fitting list
  · rintro s t m ⟨a, b, c, blanks, spelled, mark, list⟩ ends
    rw [Json.scan_text_iff.2 ⟨a, b, blanks, spelled, rfl⟩,
      (Json.scan_mark_iff colon).2 ⟨c, mark, rfl⟩, lexed_list.scanned list ends, memberUnits]
  · intro s m ts fits scanned
    obtain ⟨a, b, blanks, spelled, later⟩ := Json.scan_text_iff.1 scanned
    obtain ⟨c, mark, inner⟩ := (Json.scan_mark_iff colon).1 later
    obtain ⟨t, list, after⟩ := lexed_list.spelled fits inner
    exact ⟨t, ⟨a, b, c, blanks, spelled, mark, list⟩, after⟩

/-- A text spells its members exactly if they are what is scanned. -/
theorem document_iff {s : List Char} {ms : List (List Char × List ImportKey)} :
    Document s ms ↔ (∀ m ∈ ms, Fits m.2) ∧
      scan s = enclosedUnits memberUnits .openBrace .closeBrace ms [] := by
  have start : punctuation? '\x7b' = some .openBrace := rfl
  have close : punctuation? '\x7d' = some .closeBrace := rfl
  have lexed := lexed_member.enclosed start close
  constructor
  · rintro ⟨rest, enclosed, blanks⟩
    have ends : Json.Ends rest := Json.ends_of_blanks blanks fun _ _ same => nomatch same
    refine ⟨lexed.fitting enclosed, ?_⟩
    rw [lexed.scanned enclosed ends, Json.scan_eq_nil_iff.2 blanks]
  · rintro ⟨fits, scanned⟩
    obtain ⟨rest, enclosed, after⟩ := lexed.spelled fits scanned
    exact ⟨rest, enclosed, Json.scan_eq_nil_iff.1 after⟩

theorem slotOfToken_eq_ok {t : Token} {j : ImportKey} :
    slotOfToken t = .ok j ↔ j.number < slotLimit ∧ t = .number (some j.number) := by
  constructor
  · intro read
    unfold slotOfToken at read
    split at read
    · split at read
      · rename_i n range
        cases read
        have value : ((n.toNat : Nat) : Int) = n := Int.toNat_of_nonneg range.1
        exact ⟨by dsimp only; omega, congrArg (fun i => Token.number (some i)) value.symm⟩
      · cases read
    · cases read
  · rintro ⟨fits, rfl⟩
    have small : (j.number : Int) < slotLimit := Int.ofNat_lt.2 fits
    simp only [slotOfToken, Int.natCast_nonneg, small, and_self, if_true, Int.toNat_natCast]

theorem readMoreSlots_eq_ok {ts rest : List Token} {slots : List ImportKey} :
    readMoreSlots ts = .ok (slots, rest) ↔
      Fits slots ∧ ts = moreUnits slotUnits .closeBracket slots rest := by
  constructor
  · intro read
    fun_induction readMoreSlots ts generalizing slots with
    | case1 =>
        cases read
        exact ⟨List.forall_mem_nil _, rfl⟩
    | case2 t later ih =>
        cases first : slotOfToken t with
        | error => rw [first] at read; cases read
        | ok j =>
            cases others : readMoreSlots later with
            | error => rw [first, others] at read; cases read
            | ok p =>
                rw [first, others] at read
                cases read
                obtain ⟨fits, rfl⟩ := slotOfToken_eq_ok.1 first
                obtain ⟨later, rfl⟩ := ih others
                exact ⟨List.forall_mem_cons.2 ⟨fits, later⟩, rfl⟩
    | case3 => cases read
  · rintro ⟨fits, rfl⟩
    induction slots with
    | nil => rfl
    | cons j slots ih =>
        obtain ⟨first, later⟩ := List.forall_mem_cons.1 fits
        rw [moreUnits, slotUnits, readMoreSlots, slotOfToken_eq_ok.2 ⟨first, rfl⟩]
        dsimp only [bind, Except.bind]
        rw [ih later]

theorem readSlots_eq_ok {ts rest : List Token} {slots : List ImportKey} :
    readSlots ts = .ok (slots, rest) ↔ Fits slots ∧ ts = listUnits slots rest := by
  constructor
  · intro read
    unfold readSlots at read
    split at read
    · cases read
      exact ⟨List.forall_mem_nil _, rfl⟩
    · rename_i t later _
      cases first : slotOfToken t with
      | error => rw [first] at read; cases read
      | ok j =>
          cases others : readMoreSlots later with
          | error => rw [first, others] at read; cases read
          | ok p =>
              rw [first, others] at read
              cases read
              obtain ⟨fits, rfl⟩ := slotOfToken_eq_ok.1 first
              obtain ⟨later, rfl⟩ := readMoreSlots_eq_ok.1 others
              exact ⟨List.forall_mem_cons.2 ⟨fits, later⟩, rfl⟩
    · cases read
    · cases read
    · cases read
  · rintro ⟨fits, rfl⟩
    cases slots with
    | nil => rfl
    | cons j slots =>
        obtain ⟨first, later⟩ := List.forall_mem_cons.1 fits
        rw [listUnits, enclosedUnits, slotUnits, readSlots, slotOfToken_eq_ok.2 ⟨first, rfl⟩]
        · dsimp only [bind, Except.bind]
          rw [readMoreSlots_eq_ok.2 ⟨later, rfl⟩]
        · intro none
          cases none

/-- A member stands where its units do, and the rest after it. -/
theorem memberUnits_inj {m n : List Char × List ImportKey} {ts us : List Token}
    (fits : Fits m.2) (fits' : Fits n.2) (same : memberUnits m ts = memberUnits n us) :
    m = n ∧ ts = us := by
  simp only [memberUnits, List.cons.injEq, Token.text.injEq, true_and] at same
  obtain ⟨name, list⟩ := same
  have read := readSlots_eq_ok.2 (And.intro fits (Eq.refl (listUnits m.2 ts)))
  rw [list, readSlots_eq_ok.2 (And.intro fits' (Eq.refl (listUnits n.2 us)))] at read
  obtain ⟨slots, rest⟩ := Prod.mk.inj (Except.ok.inj read)
  exact ⟨Prod.ext name slots.symm, rest.symm⟩

theorem moreUnits_memberUnits_inj {ms ns : List (List Char × List ImportKey)} {ts us : List Token}
    (fits : ∀ m ∈ ms, Fits m.2) (fits' : ∀ n ∈ ns, Fits n.2)
    (same : moreUnits memberUnits .closeBrace ms ts = moreUnits memberUnits .closeBrace ns us) :
    ms = ns := by
  induction ms generalizing ns with
  | nil =>
      cases ns with
      | nil => rfl
      | cons n ns => cases same
  | cons m ms ih =>
      cases ns with
      | nil => cases same
      | cons n ns =>
          obtain ⟨first, later⟩ := List.forall_mem_cons.1 fits
          obtain ⟨first', later'⟩ := List.forall_mem_cons.1 fits'
          obtain ⟨rfl, rest⟩ := memberUnits_inj first first' (List.cons.inj same).2
          rw [ih later later' rest]

/-- A text spells the members of one list only. -/
theorem Document.unique {s : List Char} {ms ns : List (List Char × List ImportKey)}
    (document : Document s ms) (document' : Document s ns) : ms = ns := by
  obtain ⟨fits, scanned⟩ := document_iff.1 document
  obtain ⟨fits', scanned'⟩ := document_iff.1 document'
  have same := scanned.symm.trans scanned'
  cases ms with
  | nil =>
      cases ns with
      | nil => rfl
      | cons n ns => cases same
  | cons m ms =>
      cases ns with
      | nil => cases same
      | cons n ns =>
          obtain ⟨first, later⟩ := List.forall_mem_cons.1 fits
          obtain ⟨first', later'⟩ := List.forall_mem_cons.1 fits'
          obtain ⟨rfl, rest⟩ := memberUnits_inj first first' (List.cons.inj same).2
          rw [moreUnits_memberUnits_inj later later' rest]

/-- Takes up one member. -/
def Members.enter (m : Members) (e : List Char × List ImportKey) : Except TextFault Members := do
  m.add e.2 (← m.place e.1)

theorem Members.enter_eq_ok {m next : Members} {e : List Char × List ImportKey} :
    m.enter e = .ok next ↔ ∃ place, m.place e.1 = .ok place ∧ m.add e.2 place = .ok next := by
  unfold Members.enter
  cases m.place e.1 with
  | error => exact ⟨nofun, fun ⟨_, placed, _⟩ => nomatch placed⟩
  | ok place =>
      refine ⟨fun entered => ⟨place, rfl, entered⟩, ?_⟩
      rintro ⟨_, placed, added⟩
      cases placed
      exact added

theorem Members.enterAll_cons {m last : Members} {e : List Char × List ImportKey}
    {es : List (List Char × List ImportKey)} : (e :: es).foldlM Members.enter m = .ok last ↔
      ∃ next, m.enter e = .ok next ∧ es.foldlM Members.enter next = .ok last := by
  rw [List.foldlM_cons]
  cases m.enter e with
  | error => exact ⟨nofun, fun ⟨_, entered, _⟩ => nomatch entered⟩
  | ok next =>
      refine ⟨fun later => ⟨next, rfl, later⟩, ?_⟩
      rintro ⟨_, entered, later⟩
      cases entered
      exact later

/-- One member is read, and the unit after it decides how to go on. -/
theorem readMembers_member {m next : Members} {e : List Char × List ImportKey} (fits : Fits e.2)
    (entered : m.enter e = .ok next) (ts : List Token) :
    readMembers m (memberUnits e ts) =
      match ts with
      | .comma :: ts => readMembers next ts
      | .closeBrace :: ts => next.finish.map fun g => (g, ts)
      | _ => .error .malformed := by
  obtain ⟨place, placed, added⟩ := Members.enter_eq_ok.1 entered
  have read := readSlots_eq_ok.2 (And.intro fits (Eq.refl (listUnits e.2 ts)))
  rw [memberUnits, readMembers, placed]
  dsimp only
  split
  · rename_i f refused
    rw [read] at refused
    cases refused
  · rename_i slots later same
    rw [read] at same
    cases same
    rw [added]
    rcases ts with _ | ⟨t, ts⟩
    · rfl
    · cases t <;> rfl

/-- The members of an object are taken up one after the other. -/
theorem readMembers_eq_ok {m : Members} {ts rest : List Token} {g : EdgeGraph} :
    readMembers m ts = .ok (g, rest) ↔ ∃ e es last, (∀ x ∈ e :: es, Fits x.2) ∧
      ts = memberUnits e (moreUnits memberUnits .closeBrace es rest) ∧
        (e :: es).foldlM Members.enter m = .ok last ∧ last.finish = .ok g := by
  constructor
  · intro read
    fun_induction readMembers m ts with
    | case4 m name place placed ts slots next added later list _ ih =>
        obtain ⟨fits, rfl⟩ := readSlots_eq_ok.1 list
        obtain ⟨e, es, last, others, rfl, entered, finished⟩ := ih read
        exact ⟨(name, slots), e :: es, last, List.forall_mem_cons.2 ⟨fits, others⟩, rfl,
          Members.enterAll_cons.2 ⟨next, Members.enter_eq_ok.2 ⟨place, placed, added⟩, entered⟩,
          finished⟩
    | case5 m name place placed ts slots next added later list _ =>
        obtain ⟨fits, rfl⟩ := readSlots_eq_ok.1 list
        cases finished : next.finish with
        | error =>
            rw [finished] at read
            cases read
        | ok h =>
            rw [finished] at read
            cases read
            exact ⟨(name, slots), [], next, List.forall_mem_singleton.2 fits, rfl,
              Members.enterAll_cons.2 ⟨next, Members.enter_eq_ok.2 ⟨place, placed, added⟩, rfl⟩,
              finished⟩
    | _ => cases read
  · rintro ⟨e, es, last, fits, rfl, entered, finished⟩
    induction es generalizing m e with
    | nil =>
        obtain ⟨next, entered, same⟩ := Members.enterAll_cons.1 entered
        cases same
        rw [readMembers_member (fits e List.mem_cons_self) entered, moreUnits, finished]
        rfl
    | cons x es ih =>
        obtain ⟨next, entered, later⟩ := Members.enterAll_cons.1 entered
        obtain ⟨first, others⟩ := List.forall_mem_cons.1 fits
        rw [readMembers_member first entered, moreUnits]
        exact ih x others later

/-- An object without members has no root. -/
theorem ofTokens_eq_ok {ts : List Token} {g : EdgeGraph} :
    ofTokens ts = .ok g ↔ ∃ ms last, (∀ x ∈ ms, Fits x.2) ∧
      ts = enclosedUnits memberUnits .openBrace .closeBrace ms [] ∧
        ms.foldlM Members.enter {} = .ok last ∧ last.finish = .ok g := by
  constructor
  · intro read
    unfold ofTokens at read
    dsimp only at read
    split at read
    · cases read
    · rename_i members
      cases read
      split at members
      · cases members
      · obtain ⟨e, es, last, fits, rfl, entered, finished⟩ := readMembers_eq_ok.1 members
        exact ⟨e :: es, last, fits, rfl, entered, finished⟩
      · cases members
      · cases members
    · cases read
  · rintro ⟨ms, last, fits, rfl, entered, finished⟩
    cases ms with
    | nil =>
        cases entered
        cases finished
    | cons e es =>
        have read : readMembers {} (memberUnits e (moreUnits memberUnits .closeBrace es [])) =
            .ok (g, []) := readMembers_eq_ok.2 ⟨e, es, last, fits, rfl, entered, finished⟩
        unfold ofTokens
        dsimp only [enclosedUnits, memberUnits] at read ⊢
        rw [read]

/-- What has been taken up of the members read so far. -/
structure Taken (read : List (List Char × List ImportKey)) (m : Members) : Prop extends
    WellNamed read where
  root : ∀ slots, m.root = some slots ↔ (rootName, slots) ∈ read
  edges : m.edges.entries.map slotMember = read.filter fun m => m.1 ≠ rootName

variable {read : List (List Char × List ImportKey)} {m : Members}

theorem digits_inj {n k : Nat} (same : Nat.toDigits 10 n = Nat.toDigits 10 k) : n = k := by
  rw [← Nat.ofDigitChars_ten_toDigits (n := n), same, Nat.ofDigitChars_ten_toDigits]

theorem digits_ne_rootName (n : Nat) : Nat.toDigits 10 n ≠ rootName := by
  intro same
  have member : 'r' ∈ Nat.toDigits 10 n := by
    rw [same]
    exact List.mem_cons_self
  cases Json.isDigit_of_mem_digits 'r' member

theorem slotKey?_eq_some {name : List Char} {k : ExportKey} :
    slotKey? name = some k ↔ k.number < slotLimit ∧ name = Nat.toDigits 10 k.number := by
  unfold slotKey?
  dsimp only
  constructor
  · intro named
    split at named
    · rename_i digits
      cases named
      exact digits
    · cases named
  · rintro ⟨fits, rfl⟩
    rw [Nat.ofDigitChars_ten_toDigits, if_pos ⟨fits, rfl⟩]

/-- A slot has been taken up exactly if its name has been read. -/
theorem Taken.mem_keys (taken : Taken read m) (k : ExportKey) :
    k ∈ m.edges.keys ↔ Nat.toDigits 10 k.number ∈ read.map Prod.fst := by
  have named : ∀ name slots, (name, slots) ∈ read ∧ name ≠ rootName ↔
      ∃ e ∈ m.edges.entries, slotMember e = (name, slots) := by
    intro name slots
    rw [← List.mem_map, taken.edges, List.mem_filter]
    simp
  constructor
  · intro member
    obtain ⟨e, listed, rfl⟩ := List.mem_map.1 member
    exact List.mem_map.2 ⟨slotMember e, ((named _ _).2 ⟨e, listed, rfl⟩).1, rfl⟩
  · intro member
    obtain ⟨⟨name, slots⟩, listed, rfl⟩ := List.mem_map.1 member
    obtain ⟨e, entry, same⟩ := (named _ slots).1 ⟨listed, digits_ne_rootName k.number⟩
    cases k
    cases digits_inj (congrArg Prod.fst same)
    exact List.mem_map.2 ⟨e, entry, rfl⟩

theorem contains_eq_false_iff {m : Assoc ExportKey (List ImportKey)} {k : ExportKey} :
    m.contains k = false ↔ k ∉ m.keys := by
  rw [Assoc.contains, Assoc.find?, Option.isSome_eq_false_iff, Option.isNone_iff_eq_none,
    Assoc.lookup_eq_none_iff, Assoc.keys]

/-- The root is taken up once, and a slot once under its only name. -/
theorem Members.enter_cases {next : Members} {e : List Char × List ImportKey} :
    m.enter e = .ok next ↔
      (e.1 = rootName ∧ m.root = none ∧ next = { m with root := some e.2 }) ∨
        ∃ k : ExportKey, k.number < slotLimit ∧ e.1 = Nat.toDigits 10 k.number ∧
          k ∉ m.edges.keys ∧ next = { m with edges := m.edges.insert k e.2 } := by
  rw [Members.enter_eq_ok]
  constructor
  · rintro ⟨place, placed, added⟩
    unfold Members.place at placed
    split at placed
    · rename_i named
      cases rooted : m.root with
      | some slots => simp [rooted] at placed
      | none =>
          simp only [rooted, Option.isSome_none, Bool.false_eq_true, if_false] at placed
          cases placed
          cases added
          exact .inl ⟨named, rfl, rfl⟩
    · split at placed
      · rename_i k key
        cases placed
        obtain ⟨fits, named⟩ := slotKey?_eq_some.1 key
        cases known : m.edges.contains k with
        | true => simp [Members.add, known] at added
        | false =>
            simp only [Members.add, known, Bool.false_eq_true, if_false] at added
            cases added
            exact .inr ⟨k, fits, named, contains_eq_false_iff.1 known, rfl⟩
      · cases placed
  · rintro (⟨named, rooted, rfl⟩ | ⟨k, fits, named, fresh, rfl⟩)
    · refine ⟨none, ?_, rfl⟩
      rw [Members.place, if_pos named, rooted]
      rfl
    · refine ⟨some k, ?_, ?_⟩
      · rw [Members.place, if_neg (named ▸ digits_ne_rootName k.number),
          slotKey?_eq_some.2 ⟨fits, named⟩]
      · simp only [Members.add, contains_eq_false_iff.2 fresh, Bool.false_eq_true, if_false]

theorem taken_nil : Taken [] {} :=
  ⟨⟨List.nodup_nil, fun _ member => nomatch member⟩, fun _ => ⟨nofun, nofun⟩, rfl⟩

theorem WellNamed.snoc (named : WellNamed read) {e : List Char × List ImportKey}
    (fresh : e.1 ∉ read.map Prod.fst)
    (numbered : e.1 ≠ rootName → ∃ n < slotLimit, e.1 = Nat.toDigits 10 n) :
    WellNamed (read ++ [e]) := by
  refine ⟨?_, ?_⟩
  · rw [List.map_append, List.nodup_append]
    refine ⟨named.distinct, by simp, ?_⟩
    intro a member b last same
    cases List.mem_singleton.1 last
    exact fresh (same ▸ member)
  · intro x member other
    rcases List.mem_append.1 member with early | last
    · exact named.numbered x early other
    · cases List.mem_singleton.1 last
      exact numbered other

/-- A member that is taken up has an allowed name of its own. -/
theorem Taken.enter (taken : Taken read m) {next : Members} {e : List Char × List ImportKey}
    (entered : m.enter e = .ok next) : Taken (read ++ [e]) next := by
  obtain ⟨name, list⟩ := e
  rcases Members.enter_cases.1 entered with ⟨rfl, rooted, rfl⟩ | ⟨k, fits, rfl, fresh, rfl⟩
  · have unread : ∀ slots, (rootName, slots) ∉ read := by
      intro slots member
      cases rooted.symm.trans ((taken.root slots).2 member)
    have fresh : rootName ∉ read.map Prod.fst := by
      intro member
      obtain ⟨⟨name, slots⟩, listed, rfl⟩ := List.mem_map.1 member
      exact unread slots listed
    refine ⟨taken.toWellNamed.snoc fresh fun other => (other rfl).elim, ?_, ?_⟩
    · intro slots
      simp [unread, eq_comm]
    · rw [List.filter_append, ← taken.edges]
      simp
  · have other := digits_ne_rootName k.number
    have unread : Nat.toDigits 10 k.number ∉ read.map Prod.fst := fun member =>
      fresh ((taken.mem_keys k).2 member)
    refine ⟨taken.toWellNamed.snoc unread fun _ => ⟨k.number, fits, rfl⟩, ?_, ?_⟩
    · intro slots
      simp [taken.root slots, other.symm]
    · rw [List.filter_append, ← taken.edges, Assoc.entries_insert_of_not_mem fresh]
      simp [other, slotMember]

/-- A member with an allowed name of its own is taken up. -/
theorem Taken.exists_enter (taken : Taken read m) {e : List Char × List ImportKey}
    (named : WellNamed (read ++ [e])) : ∃ next, m.enter e = .ok next := by
  have fresh : e.1 ∉ read.map Prod.fst := by
    have distinct := named.distinct
    rw [List.map_append, List.nodup_append] at distinct
    exact fun member => distinct.2.2 _ member _ List.mem_cons_self rfl
  by_cases rootless : e.1 = rootName
  · refine ⟨_, Members.enter_cases.2 (.inl ⟨rootless, ?_, rfl⟩)⟩
    cases rooted : m.root with
    | none => rfl
    | some slots =>
        have member := (taken.root slots).1 rooted
        exact (fresh (rootless ▸ List.mem_map.2 ⟨_, member, rfl⟩)).elim
  · obtain ⟨n, fits, digits⟩ := named.numbered e (by simp) rootless
    refine ⟨_, Members.enter_cases.2 (.inr ⟨⟨n⟩, fits, digits, ?_, rfl⟩)⟩
    exact fun member => fresh (digits ▸ (taken.mem_keys ⟨n⟩).1 member)

theorem Taken.enterAll (taken : Taken read m) {last : Members}
    {es : List (List Char × List ImportKey)} (entered : es.foldlM Members.enter m = .ok last) :
    Taken (read ++ es) last := by
  induction es generalizing read m with
  | nil =>
      cases entered
      rwa [List.append_nil]
  | cons e es ih =>
      obtain ⟨next, first, later⟩ := Members.enterAll_cons.1 entered
      have all := ih (taken.enter first) later
      rwa [List.append_assoc] at all

theorem Taken.exists_enterAll (taken : Taken read m) {es : List (List Char × List ImportKey)}
    (named : WellNamed (read ++ es)) : ∃ last, es.foldlM Members.enter m = .ok last := by
  induction es generalizing read m with
  | nil => exact ⟨m, rfl⟩
  | cons e es ih =>
      have grown : read ++ e :: es = read ++ [e] ++ es := by simp
      rw [grown] at named
      have now : WellNamed (read ++ [e]) := by
        refine ⟨?_, fun x member => named.numbered x (List.mem_append_left es member)⟩
        have distinct := named.distinct
        rw [List.map_append, List.nodup_append] at distinct
        exact distinct.1
      obtain ⟨next, first⟩ := taken.exists_enter now
      obtain ⟨last, later⟩ := ih (taken.enter first) named
      exact ⟨last, Members.enterAll_cons.2 ⟨next, first, later⟩⟩

theorem slotMember_inj (d e : ExportKey × List ImportKey) (same : slotMember d = slotMember e) :
    d = e := by
  obtain ⟨⟨n⟩, slots⟩ := d
  obtain ⟨⟨k⟩, slots'⟩ := e
  simp only [slotMember, Prod.mk.injEq] at same
  rw [digits_inj same.1, same.2]

/-- The successors of a slot are what the member with its number lists. -/
theorem Denotes.successors?_eq_some {ms : List (List Char × List ImportKey)} {g : EdgeGraph}
    (denotes : Denotes ms g) {k : ExportKey} {js : List ImportKey} :
    g.successors? k = some js ↔ (Nat.toDigits 10 k.number, js) ∈ ms := by
  have listed : (k, js) ∈ g.edges.entries ↔ slotMember (k, js) ∈ g.edges.entries.map slotMember := by
    refine ⟨List.mem_map_of_mem, fun member => ?_⟩
    obtain ⟨e, listed, same⟩ := List.mem_map.1 member
    exact slotMember_inj e (k, js) same ▸ listed
  rw [successors?, Assoc.find?_eq_some_iff, listed, denotes.edges, List.mem_filter, slotMember,
    decide_eq_true_eq]
  exact and_iff_left (digits_ne_rootName k.number)

theorem Denotes.root_eq {ms : List (List Char × List ImportKey)} {g : EdgeGraph}
    (named : WellNamed ms) (denotes : Denotes ms g) {slots : List ImportKey}
    (listed : (rootName, slots) ∈ ms) : slots = g.root := by
  have known := (Assoc.lookup_eq_some_iff named.distinct).2 listed
  rw [(Assoc.lookup_eq_some_iff named.distinct).2 denotes.root] at known
  exact (Option.some.inj known).symm

theorem Denotes.unique {ms : List (List Char × List ImportKey)} {g h : EdgeGraph}
    (named : WellNamed ms) (first : Denotes ms g) (second : Denotes ms h) : g = h := by
  have root : g.root = h.root := second.root_eq named first.root
  have edges : g.edges = h.edges :=
    Assoc.ext_entries (List.map_inj_right slotMember_inj |>.1 (first.edges.trans second.edges.symm))
  cases g
  cases h
  cases root
  cases edges
  rfl

theorem Taken.finish {ms : List (List Char × List ImportKey)} {last : Members} {g : EdgeGraph}
    (taken : Taken ms last) (finished : last.finish = .ok g) : Admitted ms ∧ Denotes ms g := by
  unfold Members.finish at finished
  split at finished
  · rename_i slots rooted
    cases finished
    have member := (taken.root slots).1 rooted
    exact ⟨⟨taken.toWellNamed, List.mem_map.2 ⟨_, member, rfl⟩⟩, member, taken.edges⟩
  · cases finished

theorem Admitted.exists_finish {ms : List (List Char × List ImportKey)} (admitted : Admitted ms) :
    ∃ last g, ms.foldlM Members.enter {} = .ok last ∧ last.finish = .ok g := by
  obtain ⟨last, entered⟩ := taken_nil.exists_enterAll admitted.toWellNamed
  obtain ⟨⟨_, slots⟩, member, rfl⟩ := List.mem_map.1 admitted.rooted
  have rooted := ((taken_nil.enterAll entered).root slots).2 member
  exact ⟨last, { root := slots, edges := last.edges }, entered, by rw [Members.finish, rooted]⟩

/-- A text is read as the graph that its members denote, and only if they make one. -/
theorem ofText_eq_ok {text : String} {g : EdgeGraph} : ofText text = .ok g ↔
    ∃ ms, Document text.toList ms ∧ Admitted ms ∧ Denotes ms g := by
  rw [ofText, ofTokens_eq_ok]
  constructor
  · rintro ⟨ms, last, fits, scanned, entered, finished⟩
    exact ⟨ms, document_iff.2 ⟨fits, scanned⟩, (taken_nil.enterAll entered).finish finished⟩
  · rintro ⟨ms, document, admitted, denotes⟩
    obtain ⟨fits, scanned⟩ := document_iff.1 document
    obtain ⟨last, h, entered, finished⟩ := admitted.exists_finish
    obtain ⟨-, others⟩ := (taken_nil.enterAll entered).finish finished
    exact ⟨ms, last, fits, scanned, entered, denotes.unique admitted.toWellNamed others ▸ finished⟩

/-- Exactly the texts of the grammar with admitted members are read, each as the graph that its
members denote; every other text is refused. -/
theorem ofText_accepts_documents (text : String) :
    (∀ g, ofText text = .ok g ↔ ∃ ms, Document text.toList ms ∧ Admitted ms ∧ Denotes ms g) ∧
      ((∃ f, ofText text = .error f) ↔ ∀ ms, Document text.toList ms → ¬ Admitted ms) := by
  refine ⟨fun g => ofText_eq_ok, ?_, ?_⟩
  · rintro ⟨f, refused⟩ ms document admitted
    obtain ⟨last, g, entered, finished⟩ := admitted.exists_finish
    obtain ⟨-, denotes⟩ := (taken_nil.enterAll entered).finish finished
    cases refused.symm.trans (ofText_eq_ok.2 ⟨ms, document, admitted, denotes⟩)
  · intro none
    cases read : ofText text with
    | error f => exact ⟨f, rfl⟩
    | ok g =>
        obtain ⟨ms, document, admitted, -⟩ := ofText_eq_ok.1 read
        exact (none ms document admitted).elim

end TwinHeap.EdgeGraph
