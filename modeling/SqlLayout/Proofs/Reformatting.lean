import SqlLayout.Proofs.Flowing

/-! # Laying out twice

Laying out a text that was laid out gives what laying out the text gives, as long as both treat
keywords the same: gaps are rewritten anyway, keywords are in their letter case already, and lines
begin where they began.
-/

namespace SqlLayout

namespace Spot

open Gaps

/-! ## Spots that differ in the word ON -/

/-- The pieces are the same, or both are the word ON. -/
def Akin (a b : Spot) : Prop :=
  b.piece = a.piece ∨ ∃ w w', a.piece = .word w ∧ b.piece = .word w' ∧
    fold w = "ON".toList ∧ fold w' = "ON".toList

theorem Akin.refl (a : Spot) : Akin a a :=
  Or.inl rfl

theorem akin_respellIf (m : LetterCase) (said : Bool) (a : Spot) (g : Text) :
    Akin a ⟨g, (respellIf m said a).piece⟩ := by
  cases said with
  | false => exact Or.inl rfl
  | true =>
      rcases piece_respellOn m a with h | ⟨w, hw, hfold, h⟩
      · exact Or.inl h
      · exact Or.inr ⟨w, _, hw, h, hfold, Assembly.fold_onWord m⟩

namespace Akin

variable {a b : Spot}

theorem word? (h : Akin a b) : a.word?.map fold = b.word?.map fold := by
  rcases h with h | ⟨w, w', ha, hb, hw, hw'⟩
  · rw [Spot.word?, Spot.word?, h]
  · rw [Spot.word?, Spot.word?, ha, hb, Option.map_some, Option.map_some, hw, hw']

theorem isSome_word? (h : Akin a b) : a.word?.isSome = b.word?.isSome := by
  simpa using congrArg Option.isSome h.word?

theorem mentions (h : Akin a b) : a.mentions = b.mentions := by
  rcases h with h | ⟨w, w', ha, hb, hw, hw'⟩
  · rw [Spot.mentions, Spot.mentions, h]
  · rw [Spot.mentions, Spot.mentions, ha, hb, Assembly.mentions, Assembly.mentions,
      Assembly.mentionsJoin_on hw, Assembly.mentionsJoin_on hw']

end Akin

theorem isPlain_of_on {w : Text} (h : fold w = "ON".toList) : ∀ c ∈ w, isPlain c = true := by
  intro c hc
  have hsub : ∀ d ∈ "ON".toList, d ∈ capitals := by decide
  have hmem : foldLetter c ∈ "ON".toList := h ▸ List.mem_map_of_mem hc
  exact isPlain_of_isWord (isWord_of_mem_letters c (mem_letters (hsub _ hmem)))

theorem ne_nil_of_on {w : Text} (h : fold w = "ON".toList) : w ≠ [] := by
  rintro rfl
  simp [fold] at h

namespace Akin

variable {a b : Spot}

theorem ends (h : Akin a b) : Alike a.first b.first ∧ Alike a.last b.last := by
  rcases h with h | ⟨w, w', ha, hb, hw, hw'⟩
  · rw [Spot.first, Spot.first, Spot.last, Spot.last, h]
    exact ⟨.refl _, .refl _⟩
  · rw [Spot.first, Spot.first, Spot.last, Spot.last, ha, hb]
    exact alike_ends (ne_nil_of_on hw) (ne_nil_of_on hw') (isPlain_of_on hw) (isPlain_of_on hw')

end Akin

theorem shape_akin {as bs : List Spot} (h : List.Forall₂ Akin as bs) : shape as = shape bs := by
  induction h with
  | nil => rfl
  | cons hab h ih => simp only [shape, List.map_cons, hab.word?] at ih ⊢; rw [ih]

theorem akin_regap (rule : Rule) (x : Option Char) {as bs : List Spot}
    (h : List.Forall₂ Akin as bs) : List.Forall₂ Akin as (regap rule x bs) := by
  induction h generalizing x with
  | nil => exact .nil
  | cons hab h ih => exact .cons hab (ih _)

theorem akin_led (g : Text) {as bs : List Spot} (h : List.Forall₂ Akin as bs) :
    List.Forall₂ Akin as (led g bs) := by
  cases h with
  | nil => exact .nil
  | cons hab h => exact .cons hab h

theorem akin_flowFrom (m : LetterCase) (closed said : Bool) {es : List Edges} {as : List Spot}
    (h : es.length = as.length) : List.Forall₂ Akin as (flowFrom m closed said es as) := by
  induction as generalizing closed said es with
  | nil => cases es <;> simp_all [flowFrom]
  | cons a as ih =>
      cases es with
      | nil => simp at h
      | cons e es => exact .cons (akin_respellIf m _ a _) (ih _ _ (by simpa using h))

theorem akin_flow (m : LetterCase) {es : List Edges} {as : List Spot} (h : es.length = as.length) :
    List.Forall₂ Akin as (flow m es as) := by
  rw [flow_eq]
  exact akin_led [] (akin_flowFrom m _ _ h)

/-! ## Laid out spots are sound -/

theorem solid_respellIf (m : LetterCase) (said : Bool) {a : Spot} (h : a.Solid) {g : Text}
    (hg : g.isAllBlank = true) : Solid ⟨g, (respellIf m said a).piece⟩ := by
  cases said with
  | false => exact ⟨hg, h.2⟩
  | true =>
      rcases piece_respellOn m a with hp | ⟨w, -, -, hp⟩
      · exact ⟨hg, hp.symm ▸ h.2⟩
      · have hon : Piece.Solid (.word (Assembly.onWord m)) := by
          cases m <;> exact ⟨by decide, by decide⟩
        exact ⟨hg, hp.symm ▸ hon⟩

theorem sound_flowFrom (m : LetterCase) (closed said : Bool) (es : List Edges) {as : List Spot}
    (h : Sound as) : Sound (flowFrom m closed said es as) := by
  induction as generalizing closed said es with
  | nil => cases es <;> exact .nil
  | cons a as ih =>
      cases es with
      | nil => exact .nil
      | cons e es =>
          refine .cons (solid_respellIf m _ h.head ?_) (fun b hb hwa hwb => ?_) (ih _ _ _ h.tail)
          · split
            · rfl
            · split
              · rfl
              · exact h.head.1
          · cases as with
            | nil => cases es <;> simp [flowFrom] at hb
            | cons d as =>
                cases es with
                | nil => simp [flowFrom] at hb
                | cons e' es =>
                    simp only [flowFrom, List.head?_cons, Option.mem_def, Option.some.injEq] at hb
                    subst hb
                    rw [← (akin_respellIf m _ a _).isSome_word?] at hwa
                    rw [← (akin_respellIf m _ d _).isSome_word?] at hwb
                    change (if e'.opens then ['\n'] else if e.closes then [' '] else d.gap) ≠ []
                    split
                    · simp
                    · split
                      · simp
                      · exact h.next hwa hwb

theorem Sound.flow (m : LetterCase) (es : List Edges) {as : List Spot} (h : Sound as) :
    Sound (flow m es as) := by
  rw [flow_eq]
  exact (sound_flowFrom m _ _ es h).led rfl

theorem Sound.layOut (style : Style) {as : List Spot} (h : Sound as) : Sound (layOut style as) :=
  (h.tidy style).flow _ _

/-! ## What laying out does not change -/

theorem joins_cons (e : Edges) (es : List Edges) (a : Spot) (as : List Spot) :
    joins (e :: es) (a :: as) = (!e.opens && (a.mentions || joins es as)) := by
  simp only [joins, cut]
  cases e.opens <;> cases e.closes <;> simp [any_led]

/-- Only which words mention JOIN counts. -/
theorem joins_congr (es : List Edges) {as bs : List Spot}
    (h : List.Forall₂ (fun a b => a.mentions = b.mentions) as bs) : joins es as = joins es bs := by
  induction h generalizing es with
  | nil => rfl
  | cons hab h ih =>
      cases es with
      | nil => rfl
      | cons e es => rw [joins_cons, joins_cons, hab, ih]

theorem joins_akin (es : List Edges) {as bs : List Spot} (h : List.Forall₂ Akin as bs) :
    joins es as = joins es bs :=
  joins_congr es (h.imp fun _ _ hab => hab.mentions)

/-- The word ON is no keyword, so keywords stay in their letter case. -/
theorem cased_akin {m : LetterCase} {before : Option Text} {as bs : List Spot}
    (hc : List.Forall₂ (CasedAt m) (edges Keyword.all before as) as)
    (h : List.Forall₂ Akin as bs) : List.Forall₂ (CasedAt m) (edges Keyword.all before as) bs := by
  have hw := edges_keyed Keyword.all before as
  revert hc hw
  generalize edges Keyword.all before as = es
  intro hc hw
  induction h generalizing es with
  | nil => exact hc
  | @cons a b as bs hab h ih =>
      cases hc with
      | cons hca hc =>
          obtain ⟨hwa, hw⟩ := List.forall₂_cons.mp hw
          refine .cons (fun he w hword => ?_) (ih _ hc hw)
          rcases hab with hab | ⟨v, v', ha, hb, hv, hv'⟩
          · exact hca he w (by rw [← hword, Spot.word?, Spot.word?, hab])
          · obtain ⟨p, hp, hmem⟩ := hwa he v (by rw [Spot.word?, ha])
            exact absurd (hv ▸ hmem) (Keyword.on_not_mem p hp)

theorem respellIf_respellIf (m m' : LetterCase) (said : Bool) (a : Spot) :
    respellIf m said (respellIf m' said a) = respellIf m said a := by
  cases said with
  | false => rfl
  | true => exact respellOn_respellOn m m' a

theorem akin_self (as : List Spot) : List.Forall₂ Akin as as := by
  induction as with
  | nil => exact .nil
  | cons a as ih => exact .cons (.refl a) ih

/-- Between two walks the gaps may be settled anew. -/
theorem flowFrom_regap (commas : CommaStyle) (m m' : LetterCase) (closed said : Bool)
    {es : List Edges} {as : List Spot} {x x' : Option Char} (h : es.length = as.length)
    (hx : Alike x x') :
    flowFrom m closed said es (regap (.settled commas) x' (flowFrom m' closed said es as))
      = flowFrom m closed said es (regap (.settled commas) x as) := by
  induction as generalizing closed said es x x' with
  | nil => cases es <;> rfl
  | cons a as ih =>
      cases es with
      | nil => simp at h
      | cons e es =>
          have hlen : es.length = as.length := by simpa using h
          obtain ⟨said', hsaid⟩ : ∃ b, (if e.opens then a.mentions || joins es as else said) = b :=
            ⟨_, rfl⟩
          rw [flowFrom_cons m' hsaid, regap, regap]
          have hakin := fun g => akin_respellIf m' said' a g
          -- both walks find the same at the spot
          have hsaid₁ : (if e.opens then
              mentions ⟨Rule.settled commas x a.gap a.first, a.piece⟩
                || joins es (regap (.settled commas) a.last as) else said) = said' := by
            rw [← joins_akin es (akin_regap _ a.last (akin_self as))]
            exact hsaid
          rw [flowFrom_cons m hsaid₁, ← ih e.closes said' hlen (hakin []).ends.2]
          rw [flowFrom_cons m (b := said') (by
            rw [← joins_akin es (akin_regap _ _ (akin_flowFrom m' _ _ hlen)), ← (hakin _).mentions]
            exact hsaid)]
          have htwice : ∀ g, (respellIf m said' ⟨g, (respellIf m' said' a).piece⟩).piece
              = (respellIf m said' a).piece := by
            intro g
            rw [piece_respellIf, respellIf_respellIf]
          rw [htwice, piece_respellIf m said' a (Rule.settled commas x a.gap a.first)]
          congr 2
          cases e.opens with
          | true => rfl
          | false =>
              cases closed with
              | true => rfl
              | false => exact (settled_congr commas hx (hakin a.gap).ends.1 a.gap).symm

theorem led_flowFrom (m : LetterCase) (closed said : Bool) (es : List Edges) (g : Text) (as : List Spot) :
    led [] (flowFrom m closed said es (led g as)) = led [] (flowFrom m closed said es as) := by
  cases as with
  | nil => rfl
  | cons a as =>
      cases es with
      | nil => rfl
      | cons e es =>
          rw [led_cons, flowFrom_cons m (a := a) rfl, flowFrom_cons m (a := ⟨g, a.piece⟩) rfl]
          simp only [led_cons, piece_respellIf]
          rfl

theorem flow_settle_flow (commas : CommaStyle) (m m' : LetterCase) {es : List Edges}
    {as : List Spot} (h : es.length = as.length) :
    flow m es (settle commas (flow m' es as)) = flow m es (settle commas as) := by
  have hj₁ := joins_akin es (akin_regap (.settled commas) none (akin_flow m' h))
  have hj₂ := joins_akin es (akin_regap (.settled commas) none (akin_self as))
  have hregap : ∀ bs, led [] (flowFrom m false (joins es as) es (regap (.settled commas) none (led [] bs)))
      = led [] (flowFrom m false (joins es as) es (regap (.settled commas) none bs)) := by
    intro bs
    cases bs with
    | nil => rfl
    | cons b bs =>
        rw [← led_flowFrom m _ _ es [] (regap _ none (led [] (b :: bs))),
          ← led_flowFrom m _ _ es [] (regap _ none (b :: bs))]
        rfl
  rw [flow_eq m es (settle commas (flow m' es as)), flow_eq m es (settle commas as), settle, settle,
    ← hj₁, ← hj₂, flow_eq m' es as, hregap, flowFrom_regap commas m m' _ _ h (.refl none)]

theorem recase_of_cased {m : LetterCase} {as : List Spot}
    (hc : List.Forall₂ (CasedAt m) (edges Keyword.all none as) as) (h : Sound as) :
    recase m as = as :=
  recaseWith_of_cased hc h.solid

/-- Laying out spots that were laid out is laying out the spots. -/
theorem layOut_layOut (m : LetterCase) (commas commas' : CommaStyle) {as : List Spot} (h : Sound as) :
    layOut ⟨m, commas⟩ (layOut ⟨m, commas'⟩ as) = layOut ⟨m, commas⟩ as := by
  have hs := h.settle commas'
  have ht := tight_settle commas' h
  -- settling comes after recasing as well as before it
  obtain ⟨q, hq⟩ : ∃ q, tidy ⟨m, commas'⟩ as = q := ⟨_, rfl⟩
  have hqs : Sound q := hq ▸ h.tidy _
  have hswap : ∀ c, settle c q = recase m (settle c as) := by
    intro c
    rw [← hq, tidy, settle_recase c m hs ht, settle_settle]
  have hqt : Tight none q := by
    rw [← hq, tidy, ← hswap commas']
    exact tight_settle _ hqs
  have hcased : List.Forall₂ (CasedAt m) (edges Keyword.all none q) q := hq ▸ cased_recase m hs
  set es := edges Keyword.headings none q with hes
  have hlen : es.length = q.length := length_edges _ _ _
  have hakin := akin_flow m hlen
  have hflow := hqs.flow m es
  have hlay : layOut ⟨m, commas'⟩ as = flow m es q := by rw [layOut, hq]
  have hshape := shape_akin hakin
  -- the keywords of the spots are in their letter case already
  have hedges : ∀ v, edges v none (settle commas (flow m es q)) = edges v none q :=
    fun v => edges_settle v commas hflow hqt hshape.symm
  have hkept : recase m (settle commas (flow m es q)) = settle commas (flow m es q) := by
    refine recase_of_cased ?_ (hflow.settle commas)
    rw [hedges]
    exact cased_akin hcased (akin_regap _ none hakin)
  have hagain : edges Keyword.headings none (settle commas q) = es :=
    edges_settle _ commas hqs hqt rfl
  rw [hlay, layOut, tidy, hkept, hedges, ← hes, flow_settle_flow commas m m hlen, layOut, tidy,
    ← hswap commas, hagain]

end Spot

/-! ## Texts -/

/-- Laying out a text that was laid out is laying out the text, if keywords are in the same letter
    case. -/
theorem layOut_layOut (m : LetterCase) (commas commas' : CommaStyle) (s : Text) :
    layOut ⟨m, commas⟩ (layOut ⟨m, commas'⟩ s) = layOut ⟨m, commas⟩ s := by
  obtain ⟨hs, -⟩ := Spot.sound_read s
  rw [Spot.layOut_read ⟨m, commas'⟩ s, Spot.layOut_written _ (hs.layOut _),
    Spot.layOut_layOut m commas commas' hs, ← Spot.layOut_read]

/-- Blanks at the end of a text say nothing. -/
theorem format_append_blank (o : Options) (s : Text) {tail : Text} (h : tail.isAllBlank = true) :
    format o (s ++ tail) = format o s := by
  obtain ⟨hs, ht⟩ := Spot.sound_read s
  have htail : ((Spot.read s).2 ++ tail).isAllBlank = true := by
    simp only [Text.isAllBlank, List.all_append] at ht h ⊢
    rw [ht, h]
    rfl
  have hwrite := Spot.write_read s
  rw [← hwrite, List.append_assoc, format, format, Spot.layOut_write o.style hs htail,
    Spot.layOut_write o.style hs ht]

/-- Formatting a formatted text with other options is formatting the text with them, if both sets of
    options put keywords in the same letter case. -/
theorem format_format (o₁ o₂ : Options)
    (h : LetterCase.ofSetting o₁.keywordCase = LetterCase.ofSetting o₂.keywordCase) (s : Text) :
    format o₂ (format o₁ s) = format o₂ s := by
  simp only [format, Options.style, h]
  exact layOut_layOut _ _ _ s

/-- An unknown letter case stands for capitals. -/
theorem format_format_commas :
    LetterCase.ofSetting (.text "other".toList) = LetterCase.ofSetting (.text "upper".toList) ∧
      format {} (format ⟨.text "other".toList, .absent, .absent, .absent, .text "before".toList⟩
        "select a ,b from t join u on x".toList) = format {} "select a ,b from t join u on x".toList := by
  have h : LetterCase.ofSetting (.text "other".toList) = LetterCase.ofSetting (.text "upper".toList) := by
    decide
  exact ⟨h, format_format _ {} h _⟩

end SqlLayout
