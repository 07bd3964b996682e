import EntitySchema.Proofs.Json.Scalar
import EntitySchema.Yaml.Scanner

/-!
One round of the YAML scanner: over blanks to the next sign, and over the token that starts there.
JSON gives the scanner no block collection, so its indentation stays what it is at the start and
no candidate for a key is required.
-/

namespace EntitySchema

open Yaml

namespace Json

/--
Outside of brackets a tab must not stand where a key may start, which is at the start of a text and
behind every line break.
-/
def TabsFit : (isKeyAllowed : Bool) → List Blank → Prop
  | _, [] => True
  | isKeyAllowed, .space :: others => TabsFit isKeyAllowed others
  | isKeyAllowed, .tab :: others => isKeyAllowed = false ∧ TabsFit isKeyAllowed others
  | _, .lineFeed :: others => TabsFit true others
  | _, .carriageReturn :: others => TabsFit true others

structure Opens (char : Char) (rest : List Char) : Prop where
  noGap : isGap (some char) = false
  noComment : char ≠ '#'
  noDirective : char ≠ '%'
  noPoint : char ≠ '.'
  noDash : char = '-' → rest.head? ≠ some '-'

def Clear (rest : List Char) : Prop := (rest.dropWhile Yaml.isBlank).head? ≠ some '#'

def Stops (rest : List Char) : Prop :=
  ∀ char ∈ rest.head?, isGap (some char) = false ∧ char ≠ '#'

theorem Blank.isGap (blank : Blank) : isGap (some blank.char) = true := by
  cases blank <;> decide

theorem Blank.isBreak_char (blank : Blank) : isBreak blank.char = blank.breaksLine := by
  cases blank <;> decide

theorem exists_line (signs : List Blank) :
    ∃ front back, signs = front ++ back ∧ (∀ sign ∈ front, sign.breaksLine = false) ∧
      ∀ sign ∈ back.head?, sign.breaksLine = true := by
  refine ⟨signs.takeWhile fun sign => !sign.breaksLine,
    signs.dropWhile fun sign => !sign.breaksLine,
    List.takeWhile_append_dropWhile.symm, fun sign member => ?_, fun sign first => ?_⟩
  · simpa using List.mem_takeWhile_imp member
  · have stops := List.head?_dropWhile_not (fun sign : Blank => !sign.breaksLine) signs
    rw [first] at stops
    simpa using stops

theorem TabsFit.line {isKeyAllowed : Bool} {front back : List Blank}
    (fit : TabsFit isKeyAllowed (front ++ back))
    (unbroken : ∀ sign ∈ front, sign.breaksLine = false) :
    (Blank.tab ∈ front → isKeyAllowed = false) ∧ TabsFit isKeyAllowed back := by
  induction front with
  | nil => exact ⟨by simp, fit⟩
  | cons sign front ih =>
      rw [List.forall_mem_cons] at unbroken
      cases sign with
      | space => simpa using ih fit unbroken.2
      | tab => exact ⟨fun _ => fit.1, (ih fit.2 unbroken.2).2⟩
      | lineFeed => simp [Blank.breaksLine] at unbroken
      | carriageReturn => simp [Blank.breaksLine] at unbroken

theorem TabsFit.behind {isKeyAllowed : Bool} {sign : Blank} {others : List Blank}
    (fit : TabsFit isKeyAllowed (sign :: others)) (broken : sign.breaksLine = true) :
    TabsFit true others := by
  cases sign <;> simp_all [Blank.breaksLine, TabsFit]

end Json

namespace Yaml.Scanner

open Source Json

/-- A scanner outside of block collections, with no more tokens handed out than may be. -/
structure Ready (scanner : Scanner) : Prop where
  clean : scanner.source.Clean
  indent : scanner.indent = -1
  indents : scanner.indents = []
  optional : ∀ candidate ∈ scanner.candidate :: scanner.enclosing, candidate.isRequired = false
  lookahead : scanner.delivered = 0 ∨ scanner.delivered + 2 ≤ scanner.count

variable {scanner : Scanner} {signs : List Blank} {rest : List Char}

def passes (scanner : Scanner) (char : Char) : Bool :=
  char = ' ' || ((scanner.isInFlow || !scanner.isKeyAllowed) && char = '\t')

theorem passes_of_gap {char : Char} (stop : isGap (some char) = false ∨ isBreak char = true) :
    scanner.passes char = false := by
  have noBlank : char ≠ ' ' ∧ char ≠ '\t' := by
    refine ⟨?_, ?_⟩ <;> rintro rfl <;> exact absurd stop (by decide)
  simp [passes, noBlank]

theorem skipToToken_line (clean : scanner.source.Clean)
    (fit : scanner.isInFlow = true ∨ (Blank.tab ∈ signs → scanner.isKeyAllowed = false))
    (unbroken : ∀ sign ∈ signs, sign.breaksLine = false)
    (ahead : scanner.source.rest = blanks signs ++ rest)
    (stops : ∀ char ∈ rest.head?, scanner.passes char = false ∧ char ≠ '#') (fuel : Nat) :
    ∃ source, scanner.source.Moves (blanks signs) source ∧
      scanner.skipToToken (fuel + 1) =
        if source.isAtBreak then
          skipToToken fuel (if scanner.isInFlow then { scanner with source := source.skipBreak }
            else { scanner with source := source.skipBreak, isKeyAllowed := true })
        else { scanner with source } := by
  have noMark := ((moves_want scanner.source 1).clean clean).opensWithMark
  have passed : ∀ char ∈ blanks signs, scanner.passes char = true := by
    intro char member
    obtain ⟨sign, isSign, rfl⟩ := List.mem_map.mp member
    have onLine := unbroken sign isSign
    cases sign with
    | space => rfl
    | tab =>
        rcases fit with inFlow | fit
        · simp [passes, inFlow, Blank.char]
        · simp [passes, fit isSign, Blank.char]
    | lineFeed => simp [Blank.breaksLine] at onLine
    | carriageReturn => simp [Blank.breaksLine] at onLine
  have wanted : (scanner.source.want 1).rest = blanks signs ++ rest := by rw [want_rest, ahead]
  have moves := moves_of_want (moves_skipWhile wanted passed fun char first => (stops char first).1)
  have noComment : ((scanner.source.want 1).skipWhile scanner.passes).nextIs '#' = false := by
    rw [nextIs, peek?, moves.rest_eq ahead]
    cases rest with
    | nil => rfl
    | cons char rest => simpa using (stops char rfl).2
  unfold passes at moves noComment
  refine ⟨_, moves, ?_⟩
  simp only [skipToToken, noMark, noComment, Bool.and_false, Bool.false_eq_true, if_false]
  rfl

theorem moves_skipBreak_blanks {source : Source} {sign : Blank} {back : List Blank}
    (broken : sign.breaksLine = true) (ahead : source.rest = blanks (sign :: back) ++ rest)
    (stops : Stops rest) :
    ∃ taken others, sign :: back = taken ++ others ∧ source.Moves (blanks taken) source.skipBreak ∧
      others.length ≤ back.length ∧
      ∀ isKeyAllowed, TabsFit isKeyAllowed (sign :: back) → TabsFit true others := by
  have isBreak : isBreak sign.char = true := by rw [Blank.isBreak_char, broken]
  rcases moves_skipBreak ahead isBreak with single | ⟨others, isReturn, isFeed, both⟩
  · exact ⟨[sign], back, rfl, single, Nat.le_refl _, fun _ fit => fit.behind broken⟩
  · cases back with
    | nil =>
        rw [show rest = '\n' :: others from isFeed] at stops
        exact absurd (stops _ rfl).1 (by decide)
    | cons second back =>
        have isFeed : second.char = '\n' := (List.cons.inj isFeed).1
        have brokenAgain : second.breaksLine = true := by
          rw [← Blank.isBreak_char, isFeed]
          decide
        refine ⟨[sign, second], back, rfl, ?_, Nat.le_succ _, fun _ fit =>
          (fit.behind broken).behind brokenAgain⟩
        simpa [blanks, isReturn, isFeed] using both

theorem skipToToken_blanks (clean : scanner.source.Clean)
    (fit : scanner.isInFlow = true ∨ TabsFit scanner.isKeyAllowed signs)
    (ahead : scanner.source.rest = blanks signs ++ rest) (stops : Stops rest) {fuel : Nat}
    (enough : signs.length < fuel) :
    ∃ source isKeyAllowed, scanner.source.Moves (blanks signs) source ∧
      scanner.skipToToken fuel = { scanner with source, isKeyAllowed } ∧
      (scanner.isInFlow = true → isKeyAllowed = scanner.isKeyAllowed) := by
  induction fuel generalizing scanner signs with
  | zero => simp at enough
  | succ fuel ih =>
      -- the blanks of this line, and what stands from the line break on
      obtain ⟨front, back, rfl, unbroken, backHead⟩ := exists_line signs
      rw [blanks_append, List.append_assoc] at ahead
      have lineFit : scanner.isInFlow = true ∨
          (Blank.tab ∈ front → scanner.isKeyAllowed = false) :=
        fit.imp_right fun fit => (fit.line unbroken).1
      cases back with
      | nil =>
          -- the last line: the token stands behind its blanks
          obtain ⟨source, moves, skipped⟩ := skipToToken_line clean lineFit unbroken ahead
            (fun char first => ⟨passes_of_gap (Or.inl (stops char first).1), (stops char first).2⟩)
            fuel
          have noBreak : source.isAtBreak = false := by
            rw [isAtBreak, peek?, moves.rest_eq ahead]
            cases rest with
            | nil => rfl
            | cons char rest => exact (Bool.or_eq_false_iff.mp (stops char rfl).1).2
          refine ⟨source, scanner.isKeyAllowed, by simpa using moves, ?_, fun _ => rfl⟩
          rw [skipped, noBreak, if_neg (by simp)]
      | cons sign back =>
          have broken : sign.breaksLine = true := backHead sign rfl
          have isBreak : isBreak sign.char = true := by rw [Blank.isBreak_char, broken]
          have noHash : sign.char ≠ '#' := by cases sign <;> decide
          obtain ⟨source, moves, skipped⟩ := skipToToken_line clean lineFit unbroken ahead
            (by
              rintro char ⟨⟩
              exact ⟨passes_of_gap (Or.inr isBreak), noHash⟩) fuel
          have atBreak := moves.rest_eq ahead
          have isAtBreak : source.isAtBreak = true := by
            rw [Source.isAtBreak, peek?, atBreak]
            exact isBreak
          obtain ⟨taken, others, split, breakMoves, fewer, othersFit⟩ :=
            moves_skipBreak_blanks broken atBreak stops
          rw [split, blanks_append, List.append_assoc] at atBreak
          have behind := breakMoves.rest_eq atBreak
          have clean' := breakMoves.clean (moves.clean clean)
          have onward {target : Source} (further : source.skipBreak.Moves (blanks others) target) :
              scanner.source.Moves (blanks (front ++ sign :: back)) target := by
            rw [split, blanks_append, blanks_append]
            exact moves.trans (breakMoves.trans further)
          have lasts : others.length < fuel := by
            rw [List.length_append, List.length_cons] at enough
            omega
          rw [skipped, if_pos isAtBreak]
          by_cases inFlow : scanner.isInFlow = true
          · rw [if_pos inFlow]
            obtain ⟨target, isKeyAllowed, further, same, kept⟩ :=
              @ih { scanner with source := source.skipBreak } _ clean' (Or.inl inFlow) behind lasts
            exact ⟨target, isKeyAllowed, onward further, same, kept⟩
          · rw [if_neg inFlow]
            have fit : TabsFit scanner.isKeyAllowed (sign :: back) :=
              ((fit.resolve_left inFlow).line unbroken).2
            obtain ⟨target, isKeyAllowed, further, same, _⟩ :=
              @ih { scanner with source := source.skipBreak, isKeyAllowed := true } _ clean'
                (Or.inr (othersFit _ fit)) behind lasts
            exact ⟨target, isKeyAllowed, onward further, same, fun flow => absurd flow inFlow⟩

theorem isAtMark_of_opens {source : Source} {char : Char} (opens : Opens char rest)
    (ahead : source.rest = char :: rest) :
    source.isAtMark '-' = false ∧ source.isAtMark '.' = false := by
  have noDash : (source.rest.take 3 == ['-', '-', '-']) = false := by
    rw [beq_eq_false_iff_ne, ahead]
    intro same
    obtain ⟨rfl, same⟩ := List.cons.inj same
    refine opens.noDash rfl ?_
    cases rest with
    | nil => simp at same
    | cons second rest =>
        have heads := (List.cons.inj (List.cons.inj same).2).1
        exact congrArg some heads
  have noPoint : (source.rest.take 3 == ['.', '.', '.']) = false := by
    rw [beq_eq_false_iff_ne, ahead]
    intro same
    exact opens.noPoint (List.cons.inj same).1
  simp [isAtMark, noDash, noPoint]

theorem unwind_of_indents (indents : scanner.indents = []) (column : Int) :
    scanner.unwind column = scanner := by
  rw [unwind, indents]
  split <;> rfl

theorem step?_of_skipped {middle : Scanner}
    (skipped : scanner.skipToToken (scanner.source.remaining + 1) = middle)
    (indents : middle.indents = []) {char : Char} (ahead : middle.source.rest = char :: rest)
    (opens : Opens char rest) :
    scanner.step? =
      (scanContent? { middle with source := middle.source.want 4 } char rest.head?).map
        fun scanner =>
          if scanner.mayBeCommented then
            { scanner with source := scanner.source.skipLineComment }
          else scanner := by
  have atChar : (middle.source.want 4).rest = char :: rest := by rw [want_rest, ahead]
  obtain ⟨noDash, noPoint⟩ := isAtMark_of_opens opens atChar
  have noDirective : (decide ((middle.source.want 4).column = 0) && decide (char = '%')) =
      false := by
    rw [decide_eq_false opens.noDirective, Bool.and_false]
  unfold step?
  rw [skipped]
  dsimp only
  rw [unwind_of_indents indents, atChar]
  dsimp only
  rw [noDirective, noDash, noPoint]
  rfl

theorem step?_token (ready : scanner.Ready)
    (fit : scanner.isInFlow = true ∨ TabsFit scanner.isKeyAllowed signs) {char : Char}
    (ahead : scanner.source.rest = blanks signs ++ char :: rest) (opens : Opens char rest) :
    ∃ source isKeyAllowed, scanner.source.Moves (blanks signs) source ∧
      (scanner.isInFlow = true → isKeyAllowed = scanner.isKeyAllowed) ∧
      scanner.step? = (scanContent? { scanner with source, isKeyAllowed } char rest.head?).map
        fun scanner =>
          if scanner.mayBeCommented then
            { scanner with source := scanner.source.skipLineComment }
          else scanner := by
  have stops : Stops (char :: rest) := by
    rintro char ⟨⟩
    exact ⟨opens.noGap, opens.noComment⟩
  have enough : signs.length < scanner.source.remaining + 1 := by
    rw [ready.clean.remaining, ahead, blanks, List.length_append, List.length_map]
    omega
  obtain ⟨source, isKeyAllowed, moves, skipped, kept⟩ :=
    skipToToken_blanks ready.clean fit ahead stops enough
  have wanted := moves.trans (moves_want source 4)
  rw [List.append_nil] at wanted
  exact ⟨source.want 4, isKeyAllowed, wanted, kept,
    step?_of_skipped skipped ready.indents (moves.rest_eq ahead) opens⟩

theorem deliver_ready (ready : scanner.Ready) (fuel : Nat) :
    ∃ delivered, scanner.deliver fuel = ({ scanner with delivered }, true) ∧
      ({ scanner with delivered }).Ready := by
  induction fuel generalizing scanner with
  | zero => exact ⟨scanner.delivered, rfl, ready⟩
  | succ fuel ih =>
      rw [deliver]
      by_cases late : scanner.count ≤ scanner.delivered + Scanner.lookahead
      · rw [if_pos late]
        exact ⟨scanner.delivered, rfl, ready⟩
      · have next : ({ scanner with delivered := scanner.delivered + 1 }).Ready :=
          { ready with lookahead := Or.inr (by simp only [Scanner.lookahead] at late ⊢; omega) }
        obtain ⟨delivered, same, ready'⟩ := ih next
        rw [if_neg late]
        cases found : scanner.awaited? with
        | none => exact ⟨delivered, same, ready'⟩
        | some candidate =>
            -- a candidate that is not required is dropped without an error
            have member : candidate ∈ scanner.candidate :: scanner.enclosing :=
              List.dropWhile_subset _ (List.takeWhile_subset _ (List.mem_of_find?_eq_some found))
            simp only [ready.optional candidate member, Bool.false_eq_true, if_false]
            split
            · exact ⟨scanner.delivered, rfl, ready⟩
            · exact ⟨delivered, same, ready'⟩

/-- The scanner gets from one state to another, in no more rounds than it moves over signs. -/
structure Leads (scanner next : Scanner) : Prop where
  rounds : ∃ count, count + next.source.rest.length ≤ scanner.source.rest.length ∧
    ∀ fuel, run (fuel + count) scanner = run fuel next
  ready : next.Ready

theorem Leads.trans {middle next : Scanner} (first : scanner.Leads middle)
    (second : middle.Leads next) : scanner.Leads next where
  rounds := by
    obtain ⟨count, bound, same⟩ := first.rounds
    obtain ⟨more, boundMore, sameMore⟩ := second.rounds
    refine ⟨more + count, by omega, fun fuel => ?_⟩
    rw [← Nat.add_assoc, same, sameMore]
  ready := second.ready

theorem run_of_step {next final : Scanner} (stepped : scanner.step? = some next)
    (inside : next.source.isOverrun = false)
    (goesOn : ∀ token ∈ next.tokens.head?, token.content ≠ .streamEnd)
    (handed : next.deliver next.count = (final, true)) (fuel : Nat) :
    run (fuel + 1) scanner = run fuel final := by
  rw [run_succ, stepped]
  dsimp only
  rw [inside, if_neg (by simp), handed]
  cases tokens : next.tokens with
  | nil => rfl
  | cons token others =>
      rw [tokens] at goesOn
      obtain ⟨content, line⟩ := token
      cases content with
      | streamEnd => exact absurd rfl (goesOn _ rfl)
      | _ => rfl

def contents (scanner : Scanner) : List TokenContent := scanner.tokens.map Token.content

structure Adds (scanner : Scanner) (chars : List Char) (content : TokenContent) (next : Scanner) :
    Prop where
  moves : scanner.source.Moves chars next.source
  contents : next.contents = content :: scanner.contents
  ready : next.Ready

structure Scans (scanner : Scanner) (contents : List TokenContent) (next : Scanner) : Prop
    extends Leads scanner next where
  contents : next.contents = contents.reverse ++ scanner.contents

theorem Scans.refl (ready : scanner.Ready) : scanner.Scans [] scanner where
  rounds := ⟨0, Nat.le_of_eq (Nat.zero_add _), fun _ => rfl⟩
  ready := ready
  contents := rfl

theorem Scans.trans {middle next : Scanner} {first second : List TokenContent}
    (front : scanner.Scans first middle) (back : middle.Scans second next) :
    scanner.Scans (first ++ second) next where
  toLeads := front.toLeads.trans back.toLeads
  contents := by rw [back.contents, front.contents, List.reverse_append, List.append_assoc]

theorem Ready.leads (ready : scanner.Ready)
    (fit : scanner.isInFlow = true ∨ TabsFit scanner.isKeyAllowed signs) {char : Char}
    (ahead : scanner.source.rest = blanks signs ++ char :: rest) (opens : Opens char rest) :
    ∃ source isKeyAllowed, scanner.source.Moves (blanks signs) source ∧
      (scanner.isInFlow = true → isKeyAllowed = scanner.isKeyAllowed) ∧
      ∀ next, scanContent? { scanner with source, isKeyAllowed } char rest.head? = some next →
        next.Ready → (∀ content ∈ next.contents.head?, content ≠ .streamEnd) →
        Clear next.source.rest → next.source.rest.length ≤ rest.length →
        ∃ target delivered, next.source.Moves [] target ∧
          scanner.Leads { next with source := target, delivered } := by
  obtain ⟨source, isKeyAllowed, moves, kept, step⟩ := step?_token ready fit ahead opens
  refine ⟨source, isKeyAllowed, moves, kept, fun next scanned nextReady goesOn clear shorter => ?_⟩
  obtain ⟨target, comments, stepped⟩ : ∃ target, next.source.Moves [] target ∧
      scanner.step? = some { next with source := target } := by
    rw [step, scanned, Option.map_some]
    split
    · exact ⟨_, moves_skipLineComment clear, rfl⟩
    · exact ⟨_, .refl next.source, rfl⟩
  have targetReady : ({ next with source := target }).Ready :=
    { nextReady with clean := comments.clean nextReady.clean }
  obtain ⟨delivered, handed, final⟩ := deliver_ready targetReady next.count
  refine ⟨target, delivered, comments, ?_, final⟩
  refine ⟨1, ?_, fun fuel => ?_⟩
  · have same : next.source.rest = target.rest := comments.rest
    rw [ahead, List.length_append, List.length_cons]
    simp only [← same]
    omega
  · refine run_of_step stepped targetReady.clean.inside ?_ handed fuel
    intro token first
    refine goesOn token.content ?_
    rw [contents, List.head?_map, Option.mem_def.mp first]
    rfl

theorem Ready.scans (ready : scanner.Ready)
    (fit : scanner.isInFlow = true ∨ TabsFit scanner.isKeyAllowed signs) {char : Char}
    (ahead : scanner.source.rest = blanks signs ++ char :: rest) (opens : Opens char rest) :
    ∃ source isKeyAllowed, scanner.source.Moves (blanks signs) source ∧
      ({ scanner with source, isKeyAllowed }).Ready ∧ source.rest = char :: rest ∧
      (scanner.isInFlow = true → isKeyAllowed = scanner.isKeyAllowed) ∧
      ∀ chars content next others,
        scanContent? { scanner with source, isKeyAllowed } char rest.head? = some next →
        ({ scanner with source, isKeyAllowed }).Adds chars content next → chars ≠ [] →
        content ≠ .streamEnd → char :: rest = chars ++ others → Clear others →
        ∃ target delivered, next.source.Moves [] target ∧ target.rest = others ∧
          scanner.Scans [content] { next with source := target, delivered } := by
  obtain ⟨source, isKeyAllowed, moves, kept, leads⟩ := ready.leads fit ahead opens
  have atChar : source.rest = char :: rest := moves.rest_eq ahead
  refine ⟨source, isKeyAllowed, moves, { ready with clean := moves.clean ready.clean }, atChar,
    kept, fun chars content next others scanned adds nonempty goesOn split clear => ?_⟩
  have behind : next.source.rest = others := adds.moves.rest_eq (atChar.trans split)
  have shorter : others.length ≤ rest.length := by
    have size := congrArg List.length split
    have some : 0 < chars.length := List.length_pos_of_ne_nil nonempty
    rw [List.length_append, List.length_cons] at size
    omega
  obtain ⟨target, delivered, comments, leads⟩ := leads next scanned adds.ready
    (by rw [adds.contents]; rintro other ⟨⟩; exact goesOn) (behind.symm ▸ clear)
    (behind.symm ▸ shorter)
  exact ⟨target, delivered, comments, comments.rest.symm.trans behind, leads, adds.contents⟩

end Yaml.Scanner

end EntitySchema
