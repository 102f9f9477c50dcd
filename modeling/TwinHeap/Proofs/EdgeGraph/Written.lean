import TwinHeap.Proofs.EdgeGraph.Grammar

/-! A graph is written as a text of the grammar and read back from it, as long as its slots fit into
32 bits. -/
namespace TwinHeap

namespace Json

/-- A name that is written without escapes. -/
def Literally (name : List Char) : Prop :=
  ∀ c ∈ name, Text.escapeJson c = [c] ∧ c ≠ '"' ∧ c ≠ '\\' ∧ 0x20 ≤ c.toNat

theorem Literally.spelled {name : List Char} (plain : Literally name) (rest : List Char) :
    Spelled (name.flatMap Text.escapeJson ++ '"' :: rest) name rest := by
  induction name with
  | nil => exact .close rest
  | cons c name ih =>
      obtain ⟨itself, quote, slash, visible⟩ := plain c List.mem_cons_self
      rw [List.flatMap_cons, itself]
      exact .plain quote slash visible (ih fun x member => plain x (List.mem_cons_of_mem c member))

theorem literally_digits (n : Nat) : Literally (Nat.toDigits 10 n) := by
  intro c member
  have digit := isDigit_of_mem_digits c member
  have other : ∀ d : Char, d.isDigit = false → c ≠ d := by
    rintro d no rfl
    rw [digit] at no
    cases no
  have visible : 0x20 ≤ c.toNat := by
    simp only [Char.isDigit, Bool.and_eq_true, decide_eq_true_eq] at digit
    exact Nat.le_trans (by decide) (UInt32.le_iff_toNat_le.1 digit.1)
  refine ⟨?_, other '"' rfl, other '\\' rfl, visible⟩
  simp [Text.escapeJson, other '"' rfl, other '\\' rfl, other '\n' rfl, other '\t' rfl,
    other '\r' rfl, other '\x08' rfl, other '\x0c' rfl, Nat.not_lt.2 visible]

end Json

namespace EdgeGraph

open Json (Blanks Items Enclosed)

theorem literally_rootName : Json.Literally rootName := by
  intro c member
  simp only [rootName, List.mem_cons, List.not_mem_nil, or_false] at member
  rcases member with rfl | rfl | rfl | rfl <;> decide

section Sequences

variable {α : Type} {item : List Char → α → List Char → Prop} {write : α → List Char}

theorem items_joinComma (close : Char) {a : α} {as : List α}
    (written : ∀ b ∈ a :: as, ∀ rest, item (write b ++ rest) b rest) (rest : List Char) :
    Items item close (joinComma ((a :: as).map write) ++ close :: rest) (a :: as) rest := by
  induction as generalizing a with
  | nil => exact .last (written a List.mem_cons_self _) (.none _)
  | cons b as ih =>
      obtain ⟨first, later⟩ := List.forall_mem_cons.1 written
      rw [List.map_cons, List.map_cons, joinComma, List.append_assoc, List.cons_append]
      · exact .more (first _) (.none _) (ih later)
      · intro none
        cases none

/-- What is written with commas between its items is a sequence without blank space. -/
theorem enclosed_joinComma (opening close : Char) {as : List α}
    (written : ∀ a ∈ as, ∀ rest, item (write a ++ rest) a rest) (rest : List Char) :
    Enclosed item opening close (opening :: (joinComma (as.map write) ++ close :: rest)) as rest := by
  cases as with
  | nil => exact .empty (.none _) (.none _)
  | cons a as => exact .items (.none _) (items_joinComma close written rest)

end Sequences

/-- Every slot that a graph names fits into 32 bits. -/
def Fitting (g : EdgeGraph) : Prop :=
  Fits g.root ∧ ∀ e ∈ g.edges.entries, e.1.number < slotLimit ∧ Fits e.2

instance (g : EdgeGraph) : Decidable g.Fitting :=
  inferInstanceAs (Decidable (Fits g.root ∧ ∀ e ∈ g.edges.entries, e.1.number < slotLimit ∧ Fits e.2))

/-- The members of a graph's text in their order. -/
def members (g : EdgeGraph) : List (List Char × List ImportKey) :=
  (rootName, g.root) :: g.edges.entries.map slotMember

theorem member_memberChars {name : List Char} {slots : List ImportKey}
    (plain : Json.Literally name) (fits : Fits slots) (rest : List Char) :
    Member (memberChars name slots ++ rest) (name, slots) rest := by
  have numerals : ∀ j ∈ slots, ∀ rest, Numeral (Nat.toDigits 10 j.number ++ rest) j rest :=
    fun j member _ => ⟨fits j member, .none _⟩
  have text : memberChars name slots ++ rest =
      '"' :: (name.flatMap Text.escapeJson ++ '"' :: ':' :: '[' ::
        (joinComma (slots.map fun j => Nat.toDigits 10 j.number) ++ ']' :: rest)) := by
    simp [memberChars, Text.quoteJsonChars, listChars]
  rw [text]
  exact ⟨_, _, _, .none _, plain.spelled _, .none _, enclosed_joinComma '[' ']' numerals rest⟩

theorem document_toChars {g : EdgeGraph} (fitting : g.Fitting) : Document g.toChars g.members := by
  have written : ∀ m ∈ g.members, ∀ rest, Member (memberChars m.1 m.2 ++ rest) m rest := by
    refine List.forall_mem_cons.2 ⟨member_memberChars literally_rootName fitting.1, ?_⟩
    intro m member
    obtain ⟨e, listed, rfl⟩ := List.mem_map.1 member
    exact member_memberChars (Json.literally_digits e.1.number) (fitting.2 e listed).2
  have text : g.toChars =
      '\x7b' :: (joinComma (g.members.map fun m => memberChars m.1 m.2) ++ ['\x7d']) := by
    simp only [toChars, members, List.map_cons, List.map_map, slotMember, Function.comp_def]
  exact ⟨[], text ▸ enclosed_joinComma '\x7b' '\x7d' written [], .none []⟩

theorem admitted_members {g : EdgeGraph} (fitting : g.Fitting) : Admitted g.members := by
  refine ⟨⟨?_, ?_⟩, List.mem_cons_self⟩
  · have digits : (g.edges.entries.map slotMember).map Prod.fst =
        g.edges.keys.map fun k => Nat.toDigits 10 k.number := by
      simp only [Assoc.keys, List.map_map, slotMember, Function.comp_def]
    rw [members, List.map_cons, digits, List.nodup_cons]
    refine ⟨?_, List.Pairwise.map _ ?_ g.edges.nodup⟩
    · intro member
      obtain ⟨k, -, same⟩ := List.mem_map.1 member
      exact digits_ne_rootName k.number same
    · rintro ⟨n⟩ ⟨k⟩ different same
      exact different (congrArg ExportKey.mk (digits_inj same))
  · intro m member other
    rcases List.mem_cons.1 member with rfl | edge
    · exact (other rfl).elim
    · obtain ⟨e, listed, rfl⟩ := List.mem_map.1 edge
      exact ⟨e.1.number, (fitting.2 e listed).1, rfl⟩

theorem denotes_members (g : EdgeGraph) : Denotes g.members g := by
  refine ⟨List.mem_cons_self, ?_⟩
  rw [members, List.filter_cons_of_neg (by simp), List.filter_eq_self.2]
  intro m member
  obtain ⟨e, -, rfl⟩ := List.mem_map.1 member
  exact decide_eq_true (digits_ne_rootName e.1.number)

/-- What was written is read back. -/
theorem ofText_toText {g : EdgeGraph} (fitting : g.Fitting) : ofText g.toText = .ok g := by
  refine ofText_eq_ok.2 ⟨g.members, ?_, admitted_members fitting, denotes_members g⟩
  rw [toText, String.toList_ofList]
  exact document_toChars fitting

/-- Every graph of slots that fit into 32 bits is written as a text of the grammar, with the root
before the slots and these in their order, and is read back as it was. -/
theorem toText_round_trip {g : EdgeGraph} (fitting : g.Fitting) :
    Document g.toText.toList g.members ∧ ofText g.toText = .ok g := by
  refine ⟨?_, ofText_toText fitting⟩
  rw [toText, String.toList_ofList]
  exact document_toChars fitting

/-- A graph of the smallest and the greatest slot number, with a repeated element, a list without
elements and keys that are not in order. -/
def extreme : EdgeGraph where
  root := [⟨4294967295⟩, ⟨0⟩, ⟨4294967295⟩]
  edges := ⟨[(⟨4294967295⟩, [⟨7⟩, ⟨7⟩]), (⟨0⟩, [])], by decide⟩

theorem toText_round_trip_extreme : extreme.Fitting ∧
    Document extreme.toText.toList extreme.members ∧ ofText extreme.toText = .ok extreme :=
  have fitting : extreme.Fitting := by decide
  ⟨fitting, toText_round_trip fitting⟩

end EdgeGraph

end TwinHeap
