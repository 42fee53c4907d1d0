import Backtest.Proofs.Vote.Spelling

/-!
# How positions are spelled

A position value is read as a whole number. So it is spelled `1`, `0` or `-1`, but also with zeros in front
of its last digit, and a minus in front of zero is passed over. Without these superfluous signs there is no
fourth spelling: every other run of digits behind an optional minus is refused where it begins.
-/

namespace Backtest.Vote

open Formula Decimal.Numeral

/-! ### Superfluous zeros -/

/-- The digits without the zeros in front of them. -/
def bareDigits : List Char → List Char
  | '0' :: digit :: rest => bareDigits (digit :: rest)
  | digits => digits

/-- The run without superfluous zeros, and without a minus in front of zero. -/
def bareRun : List Char → List Char
  | '-' :: digits => if bareDigits digits = ['0'] then ['0'] else '-' :: bareDigits digits
  | digits => bareDigits digits

section Digits

variable {digits : List Char}

theorem valueOfDigits_bareDigits (digits : List Char) :
    valueOfDigits (bareDigits digits) = valueOfDigits digits := by
  fun_induction bareDigits digits with
  | case1 digit rest ih => exact ih
  | case2 => rfl

theorem mem_of_mem_bareDigits {c : Char} (hmem : c ∈ bareDigits digits) : c ∈ digits := by
  fun_induction bareDigits digits with
  | case1 digit rest ih => exact List.mem_cons_of_mem _ (ih hmem)
  | case2 => exact hmem

/-- Nothing but a single zero begins with a zero. -/
theorem head_bareDigits {rest : List Char} (hzero : bareDigits digits = '0' :: rest) : rest = [] := by
  fun_induction bareDigits digits with
  | case1 digit rest ih => exact ih hzero
  | case2 digits hnot =>
      subst hzero
      cases rest with
      | nil => rfl
      | cons digit others => exact (hnot digit others rfl).elim

theorem le_foldl_digits (start : Nat) (digits : List Char) :
    start ≤ digits.foldl (fun value digit => 10 * value + (digit.toNat - '0'.toNat)) start := by
  induction digits generalizing start with
  | nil => exact le_refl start
  | cons digit rest ih =>
      rw [List.foldl_cons]
      refine le_trans ?_ (ih _)
      omega

theorem bareDigits_ne_nil (hsome : digits ≠ []) : bareDigits digits ≠ [] := by
  fun_induction bareDigits digits with
  | case1 digit rest ih => exact ih (List.cons_ne_nil _ _)
  | case2 => exact hsome

/-- More than one digit without a superfluous zero make ten at least. -/
theorem bareDigits_eq_singleton (hsome : digits ≠ []) (hdigits : ∀ c ∈ digits, c.isDigit = true)
    (hsmall : valueOfDigits digits < 10) :
    ∃ c, bareDigits digits = [c] ∧ c.toNat = 48 + valueOfDigits digits := by
  rw [← valueOfDigits_bareDigits] at hsmall ⊢
  cases hbare : bareDigits digits with
  | nil => exact absurd hbare (bareDigits_ne_nil hsome)
  | cons c rest =>
      have hdigit := isDigit_iff.mp (hdigits c (mem_of_mem_bareDigits (hbare ▸ List.mem_cons_self)))
      have hzero : '0'.toNat = 48 := rfl
      cases rest with
      | nil =>
          refine ⟨c, rfl, ?_⟩
          simp only [valueOfDigits, List.foldl_cons, List.foldl_nil]
          omega
      | cons next others =>
          have hne : c ≠ '0' := by
            rintro rfl
            exact List.cons_ne_nil _ _ (head_bareDigits hbare)
          have hcode : c.toNat ≠ 48 := fun hcode => hne (Char.toNat_inj.mp hcode)
          rw [hbare, valueOfDigits, List.foldl_cons, List.foldl_cons] at hsmall
          have hle := le_foldl_digits (10 * (10 * 0 + (c.toNat - '0'.toNat)) + (next.toNat - '0'.toNat)) others
          omega

theorem bareDigits_eq_iff (hsome : digits ≠ []) (hdigits : ∀ c ∈ digits, c.isDigit = true) {c : Char}
    (hc : c.isDigit = true) : bareDigits digits = [c] ↔ c.toNat = 48 + valueOfDigits digits := by
  rw [isDigit_iff] at hc
  constructor
  · intro hbare
    rw [← valueOfDigits_bareDigits, hbare]
    have hzero : '0'.toNat = 48 := rfl
    simp only [valueOfDigits, List.foldl_cons, List.foldl_nil]
    omega
  · intro hvalue
    obtain ⟨digit, hbare, hdigit⟩ := bareDigits_eq_singleton hsome hdigits (by omega)
    rw [hbare, Char.toNat_inj.mp (hdigit.trans hvalue.symm)]

theorem bareDigits_eq_zero_iff (hsome : digits ≠ []) (hdigits : ∀ c ∈ digits, c.isDigit = true) :
    bareDigits digits = ['0'] ↔ valueOfDigits digits = 0 := by
  rw [bareDigits_eq_iff hsome hdigits (by decide)]
  exact ⟨fun hvalue => (Nat.add_left_cancel (n := 48) hvalue).symm, fun hvalue => by rw [hvalue]; rfl⟩

theorem bareDigits_eq_one_iff (hsome : digits ≠ []) (hdigits : ∀ c ∈ digits, c.isDigit = true) :
    bareDigits digits = ['1'] ↔ valueOfDigits digits = 1 := by
  rw [bareDigits_eq_iff hsome hdigits (by decide)]
  exact ⟨fun hvalue => (Nat.add_left_cancel (n := 48) hvalue).symm, fun hvalue => by rw [hvalue]; rfl⟩

end Digits

/-! ### Runs that stand for a position -/

/-- An optional minus with digits behind it. -/
def IsRun (run : List Char) : Prop :=
  ∃ first digits, run = first :: digits ∧ startsValue first = true ∧ ∀ c ∈ digits, c.isDigit = true

/-- How a position is spelled without superfluous signs. -/
def spelling : Position → List Char
  | .long => ['1']
  | .cash => ['0']
  | .short => ['-', '1']

theorem ofSign?_eq_some_iff {sign : Int} {position : Position} :
    Position.ofSign? sign = some position ↔ position.sign = sign := by
  constructor
  · unfold Position.ofSign?
    split_ifs with hlong hcash hshort <;> rintro ⟨⟩
    · exact hlong.symm
    · exact hcash.symm
    · exact hshort.symm
  · rintro rfl
    exact Position.ofSign?_sign position

theorem positionOf?_of_minus {digits : List Char} {position : Position}
    (hdigits : ∀ c ∈ digits, c.isDigit = true) :
    positionOf? ('-' :: digits) = some position ↔ bareRun ('-' :: digits) = spelling position := by
  rcases eq_or_ne digits [] with rfl | hsome
  · cases position <;> decide
  have hzero := bareDigits_eq_zero_iff hsome hdigits
  have hone := bareDigits_eq_one_iff hsome hdigits
  rw [positionOf?, if_neg hsome, ofSign?_eq_some_iff, positionOf?.whole, bareRun]
  by_cases hcash : bareDigits digits = ['0']
  · have hvalue := hzero.mp hcash
    cases position <;> simp [hcash, hvalue, spelling, Position.sign]
  · have hvalue : valueOfDigits digits ≠ 0 := mt hzero.mpr hcash
    cases position with
    | long | cash =>
        simp only [if_neg hcash, spelling, Position.sign]
        exact iff_of_false (by omega) (by simp)
    | short =>
        simp only [if_neg hcash, spelling, Position.sign, List.cons_inj_right, hone]
        omega

theorem positionOf?_of_digits {first : Char} {digits : List Char} {position : Position}
    (hfirst : first.isDigit = true) (hdigits : ∀ c ∈ digits, c.isDigit = true) :
    positionOf? (first :: digits) = some position ↔ bareRun (first :: digits) = spelling position := by
  have hminus : first ≠ '-' := by
    rintro rfl
    exact absurd hfirst (by decide)
  have hall : ∀ c ∈ first :: digits, c.isDigit = true := List.forall_mem_cons.mpr ⟨hfirst, hdigits⟩
  have hposition : positionOf? (first :: digits) = Position.ofSign? (valueOfDigits (first :: digits)) := by
    simp [positionOf?, positionOf?.whole, hminus]
  have hbare : bareRun (first :: digits) = bareDigits (first :: digits) := by
    simp [bareRun, hminus]
  rw [hposition, ofSign?_eq_some_iff, hbare]
  cases position with
  | long =>
      rw [spelling, bareDigits_eq_one_iff (List.cons_ne_nil _ _) hall, Position.sign]
      omega
  | cash =>
      rw [spelling, bareDigits_eq_zero_iff (List.cons_ne_nil _ _) hall, Position.sign]
      omega
  | short =>
      refine iff_of_false (fun hsign => ?_) fun hspelled => ?_
      · simp only [Position.sign] at hsign
        omega
      · have hmem : '-' ∈ bareDigits (first :: digits) := hspelled ▸ List.mem_cons_self
        exact absurd (hall '-' (mem_of_mem_bareDigits hmem)) (by decide)

theorem positionOf?_eq_some_iff {run : List Char} {position : Position} (hrun : IsRun run) :
    positionOf? run = some position ↔ bareRun run = spelling position := by
  obtain ⟨first, digits, rfl, hfirst, hdigits⟩ := hrun
  rcases startsValue_eq_true_iff.mp hfirst with rfl | hfirst
  · exact positionOf?_of_minus hdigits
  · exact positionOf?_of_digits hfirst hdigits

/-! ### Runs in a text -/

/-- The run stands by itself: no digit follows it, and digits without a minus go on neither from a name nor
from another run. -/
structure StandsAlone (front run back : List Char) : Prop where
  isRun : IsRun run
  ends : ∀ c ∈ back.head?, c.isDigit = false
  begins : ∀ last ∈ front.getLast?, continuesName last = true ∨ last = '-' → run.head? = some '-'

theorem continuesName_or_eq_of_startsValue {c : Char} (hstarts : startsValue c = true) :
    continuesName c = true ∨ c = '-' :=
  (startsValue_eq_true_iff.mp hstarts).symm.imp_left continuesName_of_isDigit

namespace StandsAlone

variable {front run back piece rest : List Char}

theorem of_append (halone : StandsAlone (piece ++ front) run back) : StandsAlone front run back where
  isRun := halone.isRun
  ends := halone.ends
  begins last hlast := by
    refine halone.begins last ?_
    rw [List.getLast?_append, hlast]
    rfl

/-- The run begins behind the first token of a text, or inside it. -/
theorem behind_or_inside (piece : List Char) (halone : StandsAlone front run back)
    (htext : piece ++ rest = front ++ (run ++ back)) :
    (∃ front', front = piece ++ front' ∧ rest = front' ++ (run ++ back)) ∨
      ∃ c tail, piece = front ++ c :: tail ∧ run.head? = some c ∧ startsValue c = true := by
  obtain ⟨first, digits, rfl, hfirst, _⟩ := halone.isRun
  rcases List.append_eq_append_iff.mp htext with ⟨front', hfront, hrest⟩ | ⟨tail, hpiece, htail⟩
  · exact .inl ⟨front', hfront, hrest⟩
  · cases tail with
    | nil =>
        rw [List.append_nil] at hpiece
        exact .inl ⟨[], by rw [hpiece, List.append_nil], by rw [List.nil_append] at htail ⊢; exact htail.symm⟩
    | cons c tail =>
        have hhead : c = first := (List.cons_eq_cons.mp htail.symm).1
        exact .inr ⟨c, tail, hpiece, by rw [hhead, List.head?_cons], hhead ▸ hfirst⟩

/-- What is no part of a value holds no run. -/
theorem behind (piece : List Char) (halone : StandsAlone front run back)
    (htext : piece ++ rest = front ++ (run ++ back)) (hpiece : ∀ c ∈ piece, startsValue c = false) :
    ∃ front', front = piece ++ front' ∧ rest = front' ++ (run ++ back) := by
  rcases halone.behind_or_inside piece htext with hbehind | ⟨c, tail, rfl, _, hstarts⟩
  · exact hbehind
  · have hstops := hpiece c (List.mem_append_right _ List.mem_cons_self)
    rw [hstarts] at hstops
    cases hstops

/-- A run does not begin in the middle of a name or of another run. -/
theorem front_eq_nil_of_inside {c : Char} {tail : List Char}
    (halone : StandsAlone front run back) (hpiece : piece = front ++ c :: tail)
    (hhead : run.head? = some c) (hminus : '-' ∉ piece.tail)
    (hchars : ∀ other ∈ piece, continuesName other = true ∨ other = '-') : front = [] := by
  cases front with
  | nil => rfl
  | cons first others =>
      have hlast := List.getLast?_eq_some_getLast (List.cons_ne_nil first others)
      have hmem : (first :: others).getLast (List.cons_ne_nil _ _) ∈ piece :=
        hpiece ▸ List.mem_append_left _ (List.getLast_mem _)
      have hbegins := halone.begins _ hlast (hchars _ hmem)
      rw [hhead, Option.some_inj] at hbegins
      subst hbegins hpiece
      exact absurd (List.mem_append_right others List.mem_cons_self) hminus

/-- Every run that stands by itself in a text of tokens is one of its tokens. -/
theorem exists_position {text : List Char} {tokens : List (Token Word)} (hspells : Spells text tokens)
    (halone : StandsAlone front run back) (htext : text = front ++ (run ++ back)) :
    ∃ position, positionOf? run = some position := by
  induction hspells generalizing front with
  | done =>
      obtain ⟨first, digits, rfl, _⟩ := halone.isRun
      simp at htext
  | @space c rest _ hspace _ ih =>
      have hpiece : ∀ other ∈ [c], startsValue other = false := by
        intro other hother
        rw [List.mem_singleton] at hother
        subst hother
        rw [isPlainSpace_iff] at hspace
        rw [← Bool.not_eq_true, startsValue_iff]
        omega
      obtain ⟨front', rfl, hrest⟩ := halone.behind [c] htext hpiece
      exact ih halone.of_append hrest
  | opening _ ih =>
      obtain ⟨front', rfl, hrest⟩ := halone.behind ['('] htext (List.forall_mem_singleton.mpr rfl)
      exact ih halone.of_append hrest
  | closing _ ih =>
      obtain ⟨front', rfl, hrest⟩ := halone.behind [')'] htext (List.forall_mem_singleton.mpr rfl)
      exact ih halone.of_append hrest
  | equals _ ih =>
      have hpiece : ∀ c ∈ ['=', '='], startsValue c = false :=
        List.forall_mem_cons.mpr ⟨rfl, List.forall_mem_singleton.mpr rfl⟩
      obtain ⟨front', rfl, hrest⟩ := halone.behind ['=', '='] htext hpiece
      exact ih halone.of_append hrest
  | @value first digits rest position _ hfirst hdigits hend hposition _ ih =>
      rcases halone.behind_or_inside (first :: digits) htext with
        ⟨front', rfl, hrest⟩ | ⟨c, tail, hpiece, hhead, _⟩
      · exact ih halone.of_append hrest
      · have hchars : ∀ other ∈ first :: digits, continuesName other = true ∨ other = '-' :=
          List.forall_mem_cons.mpr ⟨continuesName_or_eq_of_startsValue hfirst,
            fun digit hdigit => .inl (continuesName_of_isDigit (hdigits digit hdigit))⟩
        have hminus : '-' ∉ digits := fun hmem => absurd (hdigits '-' hmem) (by decide)
        obtain rfl := halone.front_eq_nil_of_inside hpiece hhead hminus hchars
        obtain ⟨first', digits', rfl, _, hdigits'⟩ := halone.isRun
        obtain ⟨rfl, hrests⟩ : first = first' ∧ digits ++ rest = digits' ++ back :=
          List.cons_eq_cons.mp htext
        have hsame : digits = digits' := by
          rw [← Text.takeWhile_append_of_stop hdigits hend, hrests,
            Text.takeWhile_append_of_stop hdigits' halone.ends]
        exact ⟨position, hsame ▸ hposition⟩
  | @name first others rest _ hfirst hothers hend _ ih =>
      rcases halone.behind_or_inside (first :: others) htext with
        ⟨front', rfl, hrest⟩ | ⟨c, tail, hpiece, hhead, hstarts⟩
      · exact ih halone.of_append hrest
      · have hcontinues : ∀ other ∈ first :: others, continuesName other = true :=
          List.forall_mem_cons.mpr ⟨continuesName_of_startsName hfirst, hothers⟩
        have hminus : '-' ∉ others := fun hmem => absurd (hothers '-' hmem) (by decide)
        obtain rfl := halone.front_eq_nil_of_inside hpiece hhead hminus fun other hother =>
          .inl (hcontinues other hother)
        obtain ⟨rfl, _⟩ := List.cons_eq_cons.mp hpiece
        rw [startsValue_of_startsName hfirst] at hstarts
        cases hstarts

theorem apart (halone : StandsAlone front run back) : Apart front (run ++ back) := by
  intro last hlast next hnext hcontinues
  have hbegins := halone.begins last hlast (.inl hcontinues)
  rw [List.head?_append, hbegins] at hnext
  cases hnext
  decide

end StandsAlone

theorem tokensFrom_of_no_position {front run back : List Char} {tokens : List (Token Word)}
    (halone : StandsAlone front run back) (hspells : Spells front tokens)
    (hnone : positionOf? run = none) (position : Nat) :
    tokensFrom position (front ++ (run ++ back)) =
      .error ⟨.noPosition (String.ofList run), position + front.length⟩ := by
  obtain ⟨first, digits, hrun, hfirst, hdigits⟩ := halone.isRun
  obtain ⟨located, _, hlocated⟩ := tokensFrom_append position hspells halone.apart rfl
  rw [hlocated, hrun, List.cons_append, tokensFrom_value hfirst hdigits halone.ends, ← hrun, hnone]
  rfl

/-! ### Accepted spellings -/

/-- How the three positions are spelled. -/
def spellings : List String := ["1", "0", "-1"]

/-- The text of a run without superfluous zeros, and without a minus in front of zero. -/
def bare (run : String) : String := String.ofList (bareRun run.toList)

theorem bare_eq_text_iff {run : String} {position : Position} (hrun : IsRun run.toList) :
    bare run = (Word.value position).text ↔ positionOf? run.toList = some position := by
  have htext : (Word.value position).text = String.ofList (spelling position) := by
    cases position <;> rfl
  rw [positionOf?_eq_some_iff hrun, htext, bare, String.ofList_inj]

theorem bare_mem_spellings_iff {run : String} (hrun : IsRun run.toList) :
    bare run ∈ spellings ↔ ∃ position, positionOf? run.toList = some position := by
  simp only [← bare_eq_text_iff hrun]
  constructor
  · intro hmem
    simp only [spellings, List.mem_cons, List.not_mem_nil, or_false] at hmem
    rcases hmem with hlong | hcash | hshort
    · exact ⟨.long, hlong⟩
    · exact ⟨.cash, hcash⟩
    · exact ⟨.short, hshort⟩
  · rintro ⟨position, hposition⟩
    rw [hposition]
    cases position <;> decide

theorem isBlankText_of_run {text : String} {first : Char} (hmem : first ∈ text.toList)
    (hfirst : startsValue first = true) : Text.isBlankText text = false := by
  rw [← Bool.not_eq_true, Text.isBlankText, List.all_eq_true]
  intro hall
  have hblank := hall first hmem
  rw [isBlank_of_startsValue hfirst] at hblank
  cases hblank

theorem exists_tokens_of_parse {text : String} {vote : Vote} (hparse : parse text = .ok vote) :
    ∃ located, tokens text = .ok located := by
  rw [parse] at hparse
  split_ifs at hparse
  obtain ⟨located, hlocated, _⟩ := bind_eq_ok_iff.mp hparse
  exact ⟨located, hlocated⟩

theorem parse_of_tokens_error {text : String} {refusal : Refusal}
    (hblank : Text.isBlankText text = false) (htokens : tokens text = .error refusal) :
    parse text = .error refusal := by
  rw [parse, if_neg (by simp [hblank]), htokens]
  rfl

/-- **Spellings of positions.** In a text that is accepted, every run of digits behind an optional minus is
spelled `1`, `0` or `-1`, apart from superfluous zeros and a minus in front of zero. Any other run is
refused where it begins, if what comes before it is a text of tokens; and a run of an accepted spelling is
the token of its position. -/
theorem accepted_spellings {front run back : String}
    (halone : StandsAlone front.toList run.toList back.toList) :
    (∀ vote, parse (front ++ run ++ back) = .ok vote → bare run ∈ spellings) ∧
    (bare run ∉ spellings → ∀ tokens, Spells front.toList tokens →
      parse (front ++ run ++ back) = .error ⟨.noPosition run, front.utf8ByteSize⟩) ∧
    ∀ position before after, bare run = (Word.value position).text → Spells front.toList before →
      Spells back.toList after →
      Spells (front ++ run ++ back).toList (before ++ .word (.value position) :: after) := by
  have htext : (front ++ run ++ back).toList = front.toList ++ (run.toList ++ back.toList) := by
    rw [String.toList_append, String.toList_append, List.append_assoc]
  obtain ⟨first, digits, hrun, hfirst, hdigits⟩ := halone.isRun
  refine ⟨fun vote hparse => ?_, fun hother tokens hspells => ?_,
    fun position before after hbare hbefore hafter => ?_⟩
  · obtain ⟨located, hlocated⟩ := exists_tokens_of_parse hparse
    exact (bare_mem_spellings_iff halone.isRun).mpr
      (halone.exists_position (spells_of_tokensFrom hlocated) htext)
  · have hnone : positionOf? run.toList = none := by
      rw [bare_mem_spellings_iff halone.isRun, ← Option.isSome_iff_exists, Bool.not_eq_true,
        Option.isSome_eq_false_iff, Option.isNone_iff_eq_none] at hother
      exact hother
    have hblank : Text.isBlankText (front ++ run ++ back) = false :=
      isBlankText_of_run (by simp [hrun]) hfirst
    refine parse_of_tokens_error hblank ?_
    rw [Vote.tokens, htext, tokensFrom_of_no_position halone hspells hnone, String.ofList_toList,
      Nat.zero_add, utf8ByteSize_of_spells hspells]
  · have hposition : positionOf? (first :: digits) = some position :=
      hrun ▸ (bare_eq_text_iff halone.isRun).mp hbare
    rw [htext]
    refine hbefore.append halone.apart ?_
    rw [hrun, List.cons_append]
    exact .value hfirst hdigits halone.ends hposition hafter

namespace Sample

def front : String := "trend == 1 OR mean == "

theorem standsAlone_of_minus {front run : String} (digits : List Char)
    (hrun : run.toList = '-' :: digits) (hdigits : ∀ c ∈ digits, c.isDigit = true) :
    StandsAlone front.toList run.toList "".toList where
  isRun := ⟨'-', digits, hrun, by decide, hdigits⟩
  ends := by simp
  begins _ _ _ := by rw [hrun, List.head?_cons]

end Sample

/-- Zeros behind the minus are passed over, and a third digit is refused where its minus stands. -/
theorem accepted_spellings_sample :
    (StandsAlone Sample.front.toList "-001".toList "".toList ∧
      (∃ vote, parse (Sample.front ++ "-001" ++ "") = .ok vote) ∧ bare "-001" ∈ spellings) ∧
    StandsAlone Sample.front.toList "-2".toList "".toList ∧ bare "-2" ∉ spellings ∧
      (∃ tokens, Spells Sample.front.toList tokens) ∧
      parse (Sample.front ++ "-2" ++ "") = .error ⟨.noPosition "-2", 22⟩ := by
  have hzeros : StandsAlone Sample.front.toList "-001".toList "".toList :=
    Sample.standsAlone_of_minus ['0', '0', '1'] rfl (List.all_eq_true.mp rfl)
  have htwo : StandsAlone Sample.front.toList "-2".toList "".toList :=
    Sample.standsAlone_of_minus ['2'] rfl (List.all_eq_true.mp rfl)
  have hparse : parse (Sample.front ++ "-001" ++ "") =
      .ok (.or (.atom ⟨"trend", .long⟩) (.atom ⟨"mean", .short⟩)) := by
    decide +kernel
  have hbare : bare "-2" ∉ spellings := by decide
  have hcut : succeedsWith (fun _ => true) (tokens Sample.front) = true := by decide +kernel
  obtain ⟨located, hlocated, _⟩ := exists_of_succeedsWith hcut
  have hspells := spells_of_tokensFrom hlocated
  exact ⟨⟨hzeros, ⟨_, hparse⟩, (accepted_spellings hzeros).1 _ hparse⟩, htwo, hbare, ⟨_, hspells⟩,
    (accepted_spellings htwo).2.1 hbare _ hspells⟩

/-- A one behind a zero is accepted, though it is none of the three spellings. -/
theorem exists_accepted_with_superfluous_zero :
    StandsAlone "a == ".toList "01".toList "".toList ∧ "01" ∉ spellings ∧
      parse ("a == " ++ "01" ++ "") = .ok (.atom ⟨"a", .long⟩) := by
  refine ⟨⟨⟨'0', ['1'], rfl, rfl, List.all_eq_true.mp rfl⟩, by simp, ?_⟩, by decide, by decide +kernel⟩
  intro last hlast hcontinues
  obtain rfl : ' ' = last := Option.some_inj.mp hlast
  exact absurd hcontinues (by decide)

end Backtest.Vote
