import SqlLayout.Proofs.LetterTokens
import SqlLayout.Spacing

/-! # Tokens of numbers and marks

The layout puts gaps into a text without blanks, at operators, commas, closing parentheses and
headings. A number has none of these inside, and neither has a mark of several characters, but for a
few. Where these do not come, all rules take the same characters with the gaps and without them.
-/

namespace SqlLayout

open Pattern Twin TokenRule

namespace Token

/-! ## Neighbors -/

/-- A mark with which a span of its own begins, or which goes on with a word. -/
def delimits (c : Char) : Bool :=
  spans c || c == '#' || c == '[' || c == '\x60'

/-- Whether a heading right after a mark is one token with it, or may be. -/
def leads (c : Char) : Bool :=
  c == '%' || c == '.' || c == ':' || c == '@' || c == '\\'

/-- Two marks that are taken together, although the layout puts a gap between them, or the first two
    of a comment. -/
def clashes (c d : Char) : Bool :=
  ["--", "/*", ":=", "->", "@>", "<@", "%("].any (·.toList == [c, d]) || (c == '~' && isOperator d)
    || (isOperator c && d == '~')

/-- The reasons for a gap between two characters of a layout. -/
inductive Gapped (j k : Twin) : Prop where
  | operator (h : isOperator j.char ≠ isOperator k.char)
  /-- One of the two is a comma. -/
  | comma (h : j.char = ',' ∨ k.char = ',')
  | closed (h : j.char = ')')
  | ended (h : j.noted = true) (hk : k.char ≠ ':')
  | begun (h : k.noted = true) (hj : leads j.char = false)

/-- A character that begins no span, and is a letter if it belongs to a heading. -/
structure Fit (k : Twin) : Prop where
  ascii : k.char.toNat < 128
  plain : delimits k.char = false
  noted : k.noted = true → isNameLetter k.char = true

/-- Two characters in a row, between which the layout has a gap for a reason only. -/
structure Adjacent (j k : Twin) : Prop where
  left : k.left = []
  right : k.right = [] ∨ Gapped j k
  apart : clashes j.char k.char = false
  word : isWord j.char = true → isWord k.char = true → k.right = [] ∧ k.noted = j.noted

/-- A character and what comes after it in a text without blanks. -/
structure Loose (j : Twin) (ks : List Twin) : Prop where
  fit : Fit j
  next : ∀ k ∈ ks.head?, Fit k ∧ Adjacent j k

/-- Whether there is no reason for a gap between two characters, headings among them. -/
def close (c d : Char) : Bool :=
  clashes c d || (isWord c && isWord d) ||
    ((isOperator c == isOperator d) && c != ',' && d != ',' && c != ')' &&
      (!isNameLetter c || d == ':') && (!isNameLetter d || leads c))

/-- No gap comes between a character of one class and one of another. -/
def Joint (accepts accepts' : Char → Bool) : Prop :=
  ∀ m < 128, accepts (Char.ofNat m) = true → ∀ n < 128, accepts' (Char.ofNat n) = true →
    close (Char.ofNat m) (Char.ofNat n) = true

instance (accepts accepts' : Char → Bool) : Decidable (Joint accepts accepts') :=
  inferInstanceAs (Decidable (∀ m < 128, _ → _))

/-- A character of one class never comes before one of another. -/
def Shuns (accepts accepts' : Char → Bool) : Prop :=
  ∀ m < 128, accepts (Char.ofNat m) = true → ∀ n < 128, accepts' (Char.ofNat n) = true →
    clashes (Char.ofNat m) (Char.ofNat n) = true

instance (accepts accepts' : Char → Bool) : Decidable (Shuns accepts accepts') :=
  inferInstanceAs (Decidable (∀ m < 128, _ → _))

section

variable {j k : Twin} {accepts accepts' : Char → Bool}

theorem Adjacent.bare (h : Adjacent j k) (hoperator : isOperator j.char = isOperator k.char)
    (hcomma : j.char ≠ ',' ∧ k.char ≠ ',') (hclosed : j.char ≠ ')')
    (hended : j.noted = false ∨ k.char = ':') (hbegun : k.noted = false ∨ leads j.char = true) :
    k.Bare := by
  refine ⟨h.left, h.right.resolve_right fun hgap => ?_⟩
  cases hgap with
  | operator h => exact h hoperator
  | comma h => exact h.elim hcomma.1 hcomma.2
  | closed h => exact hclosed h
  | ended h hk => rcases hended with hended | hended <;> simp_all
  | begun h hj => rcases hbegun with hbegun | hbegun <;> simp_all

theorem Adjacent.bare_of_close (h : Adjacent j k) (hj : Fit j) (hk : Fit k)
    (hclose : close j.char k.char = true) : k.Bare := by
  simp only [close, Bool.or_eq_true, Bool.and_eq_true, beq_iff_eq, bne_iff_ne, Bool.not_eq_true'] at hclose
  rcases hclose with (hclash | ⟨hword, hword'⟩) | ⟨⟨⟨⟨⟨hoperator, hcomma⟩, hcomma'⟩, hclosed⟩, hended⟩, hbegun⟩
  · simp [h.apart] at hclash
  · exact ⟨h.left, (h.word hword hword').1⟩
  · refine h.bare hoperator ⟨hcomma, hcomma'⟩ hclosed (hended.imp_left fun hletter => ?_)
      (hbegun.imp_left fun hletter => ?_)
    · by_contra hnoted
      simp [hj.noted (by simpa using hnoted)] at hletter
    · by_contra hnoted
      simp [hk.noted (by simpa using hnoted)] at hletter

theorem Joint.bare (h : Joint accepts accepts') (hjk : Adjacent j k) (hj : Fit j) (hk : Fit k)
    (ha : accepts j.char = true) (ha' : accepts' k.char = true) : k.Bare := by
  refine hjk.bare_of_close hj hk ?_
  have hm := h _ hj.ascii (by rwa [Char.ofNat_toNat]) _ hk.ascii (by rwa [Char.ofNat_toNat])
  rwa [Char.ofNat_toNat, Char.ofNat_toNat] at hm

theorem joint_word (h : ∀ n < 128, accepts (Char.ofNat n) = true → isWord (Char.ofNat n) = true)
    (h' : ∀ n < 128, accepts' (Char.ofNat n) = true → isWord (Char.ofNat n) = true) :
    Joint accepts accepts' :=
  fun m hm ha n hn ha' => by simp [close, h m hm ha, h' n hn ha']

theorem Shuns.not_accepts (h : Shuns accepts accepts') (hjk : Adjacent j k) (hj : Fit j) (hk : Fit k)
    (ha : accepts j.char = true) : accepts' k.char = false := by
  rw [Bool.eq_false_iff]
  intro ha'
  have hm := h _ hj.ascii (by rwa [Char.ofNat_toNat]) _ hk.ascii (by rwa [Char.ofNat_toNat])
  rw [Char.ofNat_toNat, Char.ofNat_toNat, hjk.apart] at hm
  exact absurd hm (by simp)

end

/-! ## Contexts -/

/-- If a character of a class comes next, no gap is before it. -/
def Joined (accepts : Char → Bool) : Context := fun _ _ ks =>
  ∀ k ∈ ks.head?, accepts k.char = true → k.Bare

/-- No character of a class comes next. -/
def Lacks (accepts : Char → Bool) : Context := fun _ _ ks =>
  ∀ k ∈ ks.head?, accepts k.char = false

/-- Nothing is known. -/
def Anywhere : Context := fun _ _ _ => True

/-- A digit, a point or a minus sign. -/
def numeric (c : Char) : Bool :=
  isDecimal c || c == '.' || c == '-'

/-- A character that a number does not have after it. -/
def spoils (c : Char) : Bool :=
  isNameStart c || isDecimal c

/-- A word character, or another character of a number. -/
def figural (c : Char) : Bool :=
  isWord c || spoils c || numeric c

/-- If a character of a number comes next, it belongs to no heading, and no gap is before it. -/
def Figures : Context := fun _ _ ks =>
  ∀ k ∈ ks.head?, delimits k.char = false ∧ (figural k.char = true → k.Bare ∧ k.noted = false)

/-- A character of a class has no gap before it. -/
def Clings (P : Context) (accepts : Char → Bool) : Prop :=
  ∀ b c k ks, k.Even → P b c (k :: ks) → accepts k.char = true → k.Bare

section

variable {P : Context} {accepts accepts' : Char → Bool}

theorem clings_starts {first : Char → Bool} : Clings (Starts first P) accepts := by
  rintro b c k ks - ⟨-, k', ls, heq, hbare, -⟩ -
  obtain ⟨rfl, -⟩ := List.cons.inj heq
  exact hbare

theorem clings_joined (h : ∀ n < 128, accepts (Char.ofNat n) = true → accepts' (Char.ofNat n) = true) :
    Clings (Joined accepts') accepts :=
  fun _ _ k _ hk hP ha => hP k rfl
    (ascii_induction (P := fun c => accepts c = true → accepts' c = true) h hk.ascii ha)

theorem clings_figures (h : ∀ n < 128, accepts (Char.ofNat n) = true → figural (Char.ofNat n) = true) :
    Clings Figures accepts :=
  fun _ _ k _ hk hP ha => ((hP k rfl).2
    (ascii_induction (P := fun c => accepts c = true → figural c = true) h hk.ascii ha)).1

theorem Clings.leads (h : Clings P accepts) : Leads Loose P accepts Anywhere :=
  fun b c k ks hk hP ha => ⟨(h b c k ks hk hP ha).whole, fun _ _ => trivial⟩

theorem Clings.leads_joined (h : Clings P accepts) (hjoint : Joint accepts accepts') :
    Leads Loose P accepts (Joined accepts') := by
  refine fun b c k ks hk hP ha => ⟨(h b c k ks hk hP ha).whole, fun _ hloose l hl ha' => ?_⟩
  obtain ⟨hfit, hnext⟩ := hloose.next l hl
  exact hjoint.bare hnext hloose.fit hfit ha ha'

theorem Clings.leads_lacks (h : Clings P accepts) (hshuns : Shuns accepts accepts') :
    Leads Loose P accepts (Lacks accepts') := by
  refine fun b c k ks hk hP ha => ⟨(h b c k ks hk hP ha).whole, fun _ hloose l hl => ?_⟩
  obtain ⟨hfit, hnext⟩ := hloose.next l hl
  exact hshuns.not_accepts hnext hloose.fit hfit ha

theorem Loose.figures {k : Twin} {ks : List Twin} (h : Loose k ks) (hword : isWord k.char = true)
    (hnoted : k.noted = false) (b c : Option Char) : Figures b c ks := by
  intro l hl
  obtain ⟨hfit, hnext⟩ := h.next l hl
  refine ⟨hfit.plain, fun hfigural => ?_⟩
  by_cases hword' : isWord l.char = true
  · obtain ⟨hright, hsame⟩ := hnext.word hword hword'
    exact ⟨⟨hnext.left, hright⟩, hsame.trans hnoted⟩
  · -- a point or a minus sign: only a heading would have a gap after it
    have hmark := ascii_induction (P := fun c => isWord c = false → figural c = true →
      isOperator c = false ∧ c ≠ ',' ∧ isNameLetter c = false) (by decide) hfit.ascii
      (by simpa using hword') hfigural
    have hnoted' : l.noted = false := by
      by_contra hnot
      simp [hfit.noted (by simpa using hnot)] at hmark
    have hne : k.char ≠ ',' ∧ k.char ≠ ')' := by
      refine ⟨fun heq => ?_, fun heq => ?_⟩ <;> exact absurd (heq ▸ hword) (by decide)
    exact ⟨hnext.bare ((isOperator_of_isWord hword).trans hmark.1.symm) ⟨hne.1, hmark.2.1⟩ hne.2
      (.inl hnoted) (.inl hnoted'), hnoted'⟩

theorem Clings.leads_figures (h : Clings P accepts)
    (hword : ∀ b c k ks, Fit k → P b c (k :: ks) → accepts k.char = true →
      isWord k.char = true ∧ k.noted = false) : Leads Loose P accepts Figures := by
  refine fun b c k ks hk hP ha => ⟨(h b c k ks hk hP ha).whole, fun _ hloose => ?_⟩
  have hfit : Fit k := ⟨hloose.fit.ascii, hloose.fit.plain, hloose.fit.noted⟩
  obtain ⟨hk, hnoted⟩ := hword b c k ks hfit hP ha
  exact hloose.figures hk hnoted _ _

end

/-- A token begins with a digit or with a mark. -/
def starts (c : Char) : Bool :=
  !isNameStart c && c != '?' && !delimits c && !isBlank c

/-- Both texts go on with a digit or with a mark. Before a colon they have a word, or none of them
    has. -/
def Start : Context :=
  Starts starts fun b c ks => ∀ k ∈ ks.head?, k.char = ':' → c.any isWord = b.any isWord

/-- A pattern takes the same characters of both texts at digits and marks. -/
def Firm (rest : Text) (p : Pattern) : Prop :=
  Steady Loose rest Start p Anywhere

/-! ## Numbers -/

theorem Fit.not_noted {k : Twin} (h : Fit k) (hletter : isNameLetter k.char = false) :
    k.noted = false := by
  by_contra hnot
  simp [h.noted (by simpa using hnot)] at hletter

theorem Figures.joined_numeric {b c : Option Char} {ks : List Twin} (h : Figures b c ks) :
    Joined numeric b c ks :=
  fun k hk ha => ((h k hk).2 (by simp [figural, ha])).1

theorem Figures.joined_spoils {b c : Option Char} {ks : List Twin} (h : Figures b c ks) :
    Joined spoils b c ks :=
  fun k hk ha => ((h k hk).2 (by simp [figural, ha])).1

theorem joined_of_starts {first : Char → Bool} {P : Context} {b c : Option Char} {ks : List Twin}
    (h : Starts first P b c ks) (accepts : Char → Bool) : Joined accepts b c ks := by
  obtain ⟨-, k, ls, rfl, hbare, -⟩ := h
  intro l hl _
  obtain rfl := Option.some.inj hl
  exact hbare

/-- A word character of a number, and what is known after it. -/
theorem leads_figure {accepts : Char → Bool}
    (hword : ∀ n < 128, accepts (Char.ofNat n) = true → isWord (Char.ofNat n) = true) :
    Leads Loose Figures accepts Figures := by
  refine (clings_figures fun n hn hc => by simp [figural, hword n hn hc]).leads_figures ?_
  intro b c k ks hfit hP hc
  have hk := ascii_induction (P := fun c => accepts c = true → isWord c = true) hword hfit.ascii hc
  exact ⟨hk, ((hP k rfl).2 (by simp [figural, hk])).2⟩

/-- A digit with which a number begins, or with which it goes on after a sign or a point. -/
theorem leads_numeric {accepts : Char → Bool}
    (hdecimal : ∀ n < 128, accepts (Char.ofNat n) = true → isDecimal (Char.ofNat n) = true) :
    Leads Loose (Joined numeric) accepts Figures := by
  refine (clings_joined fun n hn hc => by simp [numeric, hdecimal n hn hc]).leads_figures ?_
  intro b c k ks hfit _ hc
  have hk := ascii_induction (P := fun c => isDecimal c = true → isWord c = true ∧ isNameLetter c = false)
    (by decide) hfit.ascii
    (ascii_induction (P := fun c => accepts c = true → isDecimal c = true) hdecimal hfit.ascii hc)
  exact ⟨hk.1, hfit.not_noted hk.2⟩

section

-- whether two marks may stand together is decided over all pairs of them
set_option maxRecDepth 1024

variable {rest : Text} (hrest : rest.isAllBlank = true)

include hrest

theorem steady_sign : Steady Loose rest (Joined numeric) sign (Joined numeric) :=
  (steady_one impartial_minus hrest
    ((clings_joined (by decide)).leads_joined (by decide))).maybe

theorem steady_digits : Steady Loose rest (Joined numeric) digits Figures :=
  (steady_one impartial_isDecimal hrest (leads_numeric fun _ _ h => h)).seq
    (steady_most impartial_isDecimal hrest (leads_figure (by decide)))

theorem steady_point {accepts : Char → Bool} (hjoint : Joint (· == '.') accepts) :
    Steady Loose rest Figures (exactly '.') (Joined accepts) :=
  steady_one impartial_point hrest ((clings_figures (by decide)).leads_joined hjoint)

theorem firm_hexadecimal : Firm rest hexadecimal := by
  have hzero : Steady Loose rest (Joined numeric) (letter '0') Figures :=
    steady_one (impartial_letter (by decide)) hrest (leads_numeric (by decide))
  have hx : Steady Loose rest Figures (letter 'x') Figures :=
    steady_one (impartial_letter (by decide)) hrest (leads_figure (by decide))
  have hdigit : Leads Loose Figures isHexDigit Figures := leads_figure (by decide)
  exact ((steady_sign hrest).seq <| (hzero.seq hx).seq <|
    (steady_one impartial_isHexDigit hrest hdigit).seq
      (steady_most impartial_isHexDigit hrest hdigit)).mono
    (fun _ _ _ h => joined_of_starts h _) fun _ _ _ _ => trivial

theorem firm_withExponent : Firm rest withExponent := by
  have hpoint : Steady Loose rest Figures (maybe (seq (exactly '.') digits)) Figures :=
    ((steady_point hrest (by decide)).seq (steady_digits hrest)).maybe
  have hletter : Steady Loose rest Figures (letter 'E') (Joined numeric) :=
    (steady_one (impartial_letter (by decide)) hrest (leads_figure (by decide))).mono
      (fun _ _ _ h => h) fun _ _ _ h => h.joined_numeric
  exact ((steady_sign hrest).seq <| (steady_digits hrest).seq <| hpoint.seq <| hletter.seq <|
    (steady_sign hrest).seq (steady_digits hrest)).mono
    (fun _ _ _ h => joined_of_starts h _) fun _ _ _ _ => trivial

/-- No letter comes before a number or after it. -/
theorem steady_unspoiled {P : Context} (h : ∀ b c ks, P b c ks → Joined spoils b c ks) :
    Steady Loose rest P (notBefore isNameStart) P :=
  steady_notBefore impartial_isNameStart hrest fun b c k ks hP hk =>
    (h b c (k :: ks) hP k rfl (by simp [spoils, hk])).whole

theorem firm_withPoint : Firm rest withPoint := by
  have hbefore : Steady Loose rest Start (notBefore isNameStart) (Joined numeric) :=
    (steady_unspoiled hrest fun _ _ _ h => joined_of_starts h _).mono (fun _ _ _ h => h)
      fun _ _ _ h => joined_of_starts h _
  have hdigits : Steady Loose rest (Joined numeric)
      (inOrder [digits, exactly '.', most digit]) (Joined spoils) :=
    (steady_digits hrest).seq <| (steady_point hrest (by decide)).seq <|
      steady_most impartial_isDecimal hrest
        ((clings_joined (by decide)).leads_joined (by decide))
  have hpoint : Steady Loose rest (Joined numeric) (seq (exactly '.') digits) (Joined spoils) :=
    (steady_one impartial_point hrest ((clings_joined (by decide)).leads_joined
      (by decide))).seq <| (steady_digits hrest).mono (fun _ _ _ h => h)
        fun _ _ _ h => h.joined_spoils
  exact (hbefore.seq <| (steady_sign hrest).seq <| (hdigits.either hpoint).seq
    (steady_unspoiled hrest fun _ _ _ h => h)).mono (fun _ _ _ h => h) fun _ _ _ _ => trivial

theorem firm_whole : Firm rest whole := by
  have hbefore : Steady Loose rest Start (notBefore isNameStart) (Joined numeric) :=
    (steady_unspoiled hrest fun _ _ _ h => joined_of_starts h _).mono (fun _ _ _ h => h)
      fun _ _ _ h => joined_of_starts h _
  exact (hbefore.seq <| (steady_sign hrest).seq <| (steady_digits hrest).seq
    (steady_unspoiled hrest fun _ _ _ h => h.joined_spoils)).mono (fun _ _ _ h => h)
      fun _ _ _ _ => trivial

theorem firm_looseWord : Firm rest looseWord := by
  have hfirst : Leads Loose Start isWord Figures := by
    refine clings_starts.leads_figures fun b c k ks hfit hP hk => ⟨hk, hfit.not_noted ?_⟩
    obtain ⟨-, k', ls, heq, -, hstarts⟩ := hP
    obtain ⟨rfl, -⟩ := List.cons.inj heq
    exact ascii_induction (P := fun c => starts c = true → isNameLetter c = false) (by decide)
      hfit.ascii hstarts
  have hmost : Leads Loose Figures (fun c => c == '$' || c == '#' || isWord c) Figures := by
    have hword : ∀ {b c k ks}, Figures b c (k :: ks) →
        (k.char == '$' || k.char == '#' || isWord k.char) = true → isWord k.char = true := by
      intro b c k ks hP hk
      have hplain := (hP k rfl).1
      simp only [delimits, spans, Bool.or_eq_false_iff, beq_eq_false_iff_ne] at hplain
      simpa [hplain] using hk
    have hclings : Clings Figures fun c => c == '$' || c == '#' || isWord c := fun b c k ks _ hP hk =>
      ((hP k rfl).2 (by simp [figural, hword hP hk])).1
    exact hclings.leads_figures fun b c k ks _ hP hk =>
      ⟨hword hP hk, ((hP k rfl).2 (by simp [figural, hword hP hk])).2⟩
  exact ((steady_one impartial_isWord hrest hfirst).seq
    (steady_most impartial_loose hrest hmost)).mono (fun _ _ _ h => h) fun _ _ _ _ => trivial

/-! ## Marks -/

omit hrest in
theorem impartial_starts : Impartial starts := by decide

omit hrest in
theorem steady_barred {p : Pattern} {Q : Context} (h : Hidden starts p) : Steady Loose rest Start p Q :=
  steady_hidden impartial_starts h

theorem firm_one {accepts : Char → Bool} (ha : Impartial accepts) : Firm rest (one accepts) :=
  steady_one ha hrest clings_starts.leads

/-- A mark with which a token begins, and what may come after it. -/
theorem steady_begin {accepts accepts' : Char → Bool} (ha : Impartial accepts)
    (hjoint : Joint (fun c => starts c && accepts c) accepts') :
    Steady Loose rest Start (one accepts) (Joined accepts') := by
  refine steady_one ha hrest fun b c k ks hk hP hc => ?_
  obtain ⟨-, k', ls, heq, -, hstarts⟩ := id hP
  obtain ⟨rfl, -⟩ := List.cons.inj heq
  exact (clings_starts.leads_joined hjoint) b c k ks hk hP (by simp [hstarts, hc])

theorem steady_joined {accepts accepts' : Char → Bool} (ha : Impartial accepts)
    (hjoint : Joint accepts accepts') :
    Steady Loose rest (Joined accepts) (one accepts) (Joined accepts') :=
  steady_one ha hrest ((clings_joined fun _ _ h => h).leads_joined hjoint)

theorem steady_run {accepts : Char → Bool} (ha : Impartial accepts) (hjoint : Joint accepts accepts) :
    Steady Loose rest (Joined accepts) (most (one accepts)) Anywhere :=
  (steady_most ha hrest ((clings_joined fun _ _ h => h).leads_joined hjoint)).mono
    (fun _ _ _ h => h) fun _ _ _ _ => trivial

theorem firm_run {accepts : Char → Bool} (ha : Impartial accepts) (hjoint : Joint accepts accepts) :
    Firm rest (oneOrMore (one accepts)) :=
  (steady_one ha hrest (clings_starts.leads_joined hjoint)).seq (steady_run hrest ha hjoint)

theorem steady_word : Steady Loose rest (Joined isWord) (oneOrMore wordChar) Anywhere :=
  have hjoint : Joint isWord isWord := joint_word (fun _ _ h => h) fun _ _ h => h
  (steady_joined hrest impartial_isWord hjoint).seq (steady_run hrest impartial_isWord hjoint)

/-- Two marks that do not come one after the other. -/
theorem steady_clash {accepts accepts' : Char → Bool} (ha : Impartial accepts)
    (ha' : Impartial accepts') (hshuns : Shuns accepts accepts') {Q : Context} :
    Steady Loose rest Start (seq (one accepts) (one accepts')) Q :=
  (steady_one ha hrest (clings_starts.leads_lacks hshuns)).seq
    (steady_never ha' hrest fun _ _ k _ h => h k rfl)

theorem steady_commentStart {Q : Context} : Steady Loose rest Start (oneOf ["--", "# "]) Q :=
  (steady_clash hrest (impartial_letter (by decide)) (impartial_letter (by decide))
    (by decide)).either (steady_barred (by decide))

theorem firm_percentPlaceholder : Firm rest percentPlaceholder := by
  have hpercent : Steady Loose rest Start (exactly '%')
      (fun b c ks => Lacks (· == '(') b c ks ∧ Joined (fun d => foldLetter d == foldLetter 's') b c ks) := by
    refine steady_one (by decide) hrest fun b c k ks hk hP ha => ?_
    have hshuns : Shuns (· == '%') (· == '(') := by decide
    have hjoint : Joint (· == '%') fun d => foldLetter d == foldLetter 's' := by decide
    obtain ⟨hwhole, hlacks⟩ := clings_starts.leads_lacks hshuns b c k ks hk hP ha
    obtain ⟨-, hjoined⟩ := clings_starts.leads_joined hjoint b c k ks hk hP ha
    exact ⟨hwhole, fun hbare hnext => ⟨hlacks hbare hnext, hjoined hbare hnext⟩⟩
  exact hpercent.seq <| Steady.seq
    (.maybe (.seq (steady_never (by decide) hrest fun _ _ k _ h => h.1 k rfl) steady_absurd))
    ((steady_one (impartial_letter (by decide)) hrest (clings_joined fun _ _ h => h).leads).mono
      (fun _ _ _ h => h.2) fun _ _ _ h => h)

theorem firm_signPlaceholder : Firm rest signPlaceholder := by
  have hsign : Steady Loose rest Start (seq (among "$:?") (oneOrMore wordChar)) Anywhere :=
    (steady_begin hrest (by decide) (by decide)).seq (steady_word hrest)
  have hother : Steady Loose rest (Starts (fun c => starts c && c != ':') fun _ _ _ => True)
      signPlaceholder Anywhere :=
    steady_hidden (by decide) (by decide)
  intro m n hnext b c ks hks hstart
  obtain ⟨hword, k, ls, rfl, hbare, hfirst⟩ := hstart
  -- at the other marks the condition on what is before may differ, but the pattern fails anyway
  by_cases hcolon : k.char = ':'
  · have hagree := hsign m n hnext b c _ hks ⟨hword, k, ls, rfl, hbare, hfirst⟩
    simp only [signPlaceholder, inOrder, notAfter, run_seq, run_look, hword k rfl hcolon]
    split
    · exact hagree
    · exact .of_none rfl rfl
  · exact hother m n hnext b c _ hks ⟨trivial, k, ls, rfl, hbare, by simp [hfirst, hcolon]⟩

theorem firm_signedName : Firm rest signedName := by
  have hsign : Steady Loose rest Start (oneOf ["@", "##", "#"]) (Joined isNameLetter) :=
    (steady_begin hrest (impartial_letter (by decide)) (by decide)).either
      (steady_barred (by decide))
  exact hsign.seq <|
    (steady_joined hrest impartial_isNameLetter (joint_word (by decide) fun _ _ h => h)).seq
      (steady_word hrest)

theorem firm_arrowOperator : Firm rest arrowOperator := by
  have hclash : ∀ {Q : Context} (c d : Char), isBlank (foldLetter c) = false →
      isBlank (foldLetter d) = false →
      Shuns (fun e => foldLetter e == foldLetter c) (fun e => foldLetter e == foldLetter d) →
      Steady Loose rest Start (seq (letter c) (letter d)) Q := fun c d hc hd hshuns =>
    steady_clash hrest (impartial_letter hc) (impartial_letter hd) hshuns
  exact .either ((hclash '-' '>' (by decide) (by decide) (by decide)).seq steady_absurd) <|
    .either (steady_barred (by decide)) <|
    .either (hclash '@' '>' (by decide) (by decide) (by decide)) <|
    .either (hclash '<' '@' (by decide) (by decide) (by decide)) <|
    .either (steady_barred (by decide)) <| .either (steady_barred (by decide)) <|
    .either (firm_one hrest (impartial_letter (by decide))) (steady_barred (by decide))

theorem firm_markRules : ∀ rule ∈ markRules, Firm rest rule.pattern := by
  simp only [markRules, rulesFrom, TokenRule.all, List.drop_succ_cons, List.drop_zero,
    List.take_succ_cons, List.take_zero, List.cons_append, List.nil_append, List.forall_mem_cons,
    List.not_mem_nil, false_implies, implies_true, and_true]
  have hbarred : ∀ {p : Pattern}, Hidden starts p → Firm rest p := fun h => steady_barred h
  exact ⟨(steady_commentStart hrest).seq steady_absurd, (steady_commentStart hrest).seq steady_absurd,
    hbarred (by decide), hbarred (by decide),
    steady_clash hrest (impartial_letter (by decide)) (impartial_letter (by decide)) (by decide),
    (steady_begin hrest (impartial_letter (by decide)) (by decide)).seq
      (steady_one (impartial_letter (by decide)) hrest (clings_joined fun _ _ h => h).leads),
    firm_one hrest impartial_star, hbarred (by decide), hbarred (by decide),
    hbarred (by decide), firm_percentPlaceholder hrest, firm_signPlaceholder hrest,
    (steady_begin hrest (by decide) (by decide)).seq (steady_word hrest),
    firm_signedName hrest, hbarred (by decide), hbarred (by decide),
    hbarred (by decide), firm_one hrest (by decide), firm_arrowOperator hrest,
    firm_run hrest (by decide) (by decide),
    firm_run hrest (by decide) (by decide)⟩

end

end Token

end SqlLayout
