import MailPush.Json.Writer
import MailPush.Proofs.Json.Reads

set_option autoImplicit false

/-! # Sequences between brackets

Arrays and objects are read alike: after one part comes a comma and the next part, or the closing
bracket, with blanks before these. `Tail next frame s text s'` is the text from after one part to
the closing bracket, where `next` reads a part and takes the state `s` to the next. A reading that
continues a sequence in this way (`Continues`) is delimited by such a text (`Tail.delimits`).
-/

namespace MailPush.Json

/-! ## One reading after another -/

section Followed

variable {α β : Type} {read : Bytes → Except Fault (α × Bytes)}
  {more : α → Bytes → Except Fault (β × Bytes)} {text tail : Bytes} {a : α} {b : β}

/-- A text is read and then another one, which does not continue it. If nothing is left after the
first, the second asks for more, so the two are cut short wherever one of them is. -/
theorem Reads.followed (h : Reads read text a) (htail : Delimits (more a) tail b)
    (hends : ∀ rest, Ends (tail ++ rest)) (hnil : ∀ a, more a [] = .error .truncated) :
    Delimits (fun bs => read bs >>= fun p => more p.1 p.2) (text ++ tail) b where
  whole rest := by
    show (read (text ++ tail ++ rest) >>= _) = _
    rw [List.append_assoc, h.whole _ (hends rest)]
    exact htail.whole rest
  cut front hfront := by
    show (read front >>= _) = _
    rcases hfront.append_cases with hcut | ⟨front', rfl, hcut⟩
    · rcases h.cut front hcut with hstarved | ⟨c, hstarved⟩
      · rw [hstarved]
        rfl
      · rw [hstarved]
        exact hnil c
    · have hends' : Ends tail := by simpa using hends []
      rw [h.whole _ (hends'.of_prefix hcut.1)]
      exact htail.cut _ hcut

end Followed

/-! ## Blanks -/

theorem blank_of_mem_nil : ∀ b ∈ ([] : Bytes), isBlank b = true := fun _ h => (nomatch h)

theorem ends_blank_append {ws bs : Bytes} (hws : ∀ b ∈ ws, isBlank b = true) (hbs : Ends bs) :
    Ends (ws ++ bs) := by
  cases ws with
  | nil => exact hbs
  | cons b ws =>
      refine ends_cons ?_
      have hb := hws b List.mem_cons_self
      simp only [isBlank, Bool.or_eq_true, beq_iff_eq] at hb
      rcases hb with ((rfl | rfl) | rfl) | rfl <;> decide

/-- A text behind blanks is cut short in the blanks, where nothing but blanks is there, or after
them. -/
theorem Cut.blank_cases {front ws text : Bytes} (hws : ∀ b ∈ ws, isBlank b = true)
    (h : Cut front (ws ++ text)) :
    skipBlank front = [] ∨ ∃ front', front = ws ++ front' ∧ Cut front' text := by
  rcases h.append_cases with hcut | hrest
  · exact .inl (skipBlank_eq_nil_iff.2 fun b hb => hws b (hcut.1.subset hb))
  · exact .inr hrest

/-! ## Sequences -/

section Sequences

variable {σ : Type} {next : σ → Bytes → Except Fault (σ × Bytes)} {frame : Frame}
  {more : σ → Bytes → Except Fault (σ × Bytes)} {s s' : σ} {text tail : Bytes}

theorem Frame.isBlank_close (frame : Frame) : isBlank frame.close = false := by
  cases frame <;> decide

/-- The text from after one part of a sequence to the closing bracket. -/
inductive Tail (next : σ → Bytes → Except Fault (σ × Bytes)) (frame : Frame) : σ → Bytes → σ → Prop
  | close {ws : Bytes} {s : σ} : (∀ b ∈ ws, isBlank b = true) →
      Tail next frame s (ws ++ [frame.close]) s
  | more {ws text tail : Bytes} {s s₁ s₂ : σ} : (∀ b ∈ ws, isBlank b = true) →
      Reads (next s) text s₁ → Tail next frame s₁ tail s₂ →
      Tail next frame s (ws ++ byte ',' :: (text ++ tail)) s₂

/-- What is left of a sequence is read as its state becomes with every part. -/
structure Continues (next : σ → Bytes → Except Fault (σ × Bytes)) (frame : Frame)
    (more : σ → Bytes → Except Fault (σ × Bytes)) : Prop where
  nil : ∀ s bs, skipBlank bs = [] → more s bs = .error .truncated
  close : ∀ s bs rest, skipBlank bs = frame.close :: rest → more s bs = .ok (s, rest)
  comma : ∀ s bs rest, skipBlank bs = byte ',' :: rest →
    more s bs = next s rest >>= fun p => more p.1 p.2

/-- What follows a part of a sequence does not continue a number. -/
theorem Tail.ends (h : Tail next frame s tail s') (rest : Bytes) : Ends (tail ++ rest) := by
  cases h with
  | close hws =>
      rw [List.append_assoc]
      exact ends_blank_append hws (ends_cons (by cases frame <;> decide))
  | more hws =>
      rw [List.append_assoc]
      exact ends_blank_append hws (ends_cons (by decide))

/-- **A sequence shows where it ends.** -/
theorem Tail.delimits (hmore : Continues next frame more) (h : Tail next frame s tail s') :
    Delimits (more s) tail s' := by
  induction h with
  | close hws =>
      rename_i ws s
      constructor
      · intro rest
        rw [List.append_assoc]
        exact hmore.close s _ rest (skipBlank_append_cons hws frame.isBlank_close rest)
      · intro front hfront
        rcases hfront.blank_cases hws with hblank | ⟨front', rfl, hfront'⟩
        · exact hmore.nil s front hblank
        · rw [hfront'.eq_nil]
          exact hmore.nil s _ (skipBlank_append hws)
  | more hws hpart htail ih =>
      rename_i ws text tail s s₁ s₂
      have hcomma : ∀ bs, more s (ws ++ byte ',' :: bs) = _ := fun bs =>
        hmore.comma s _ bs (skipBlank_append_cons hws (by decide) bs)
      have hboth := hpart.followed ih htail.ends fun s => hmore.nil s [] rfl
      constructor
      · intro rest
        rw [List.append_assoc, List.cons_append, hcomma]
        exact hboth.whole rest
      · intro front hfront
        rcases hfront.blank_cases hws with hblank | ⟨front', rfl, hfront'⟩
        · exact hmore.nil s front hblank
        · rcases hfront'.cons_cases with rfl | ⟨front'', rfl, hfront''⟩
          · exact hmore.nil s _ (skipBlank_append hws)
          · rw [hcomma]
            exact hboth.cut front'' hfront''

/-- The same from before the first part. -/
theorem Tail.delimits_cons (hmore : Continues next frame more) {s₁ : σ}
    (hpart : Reads (next s) text s₁) (h : Tail next frame s₁ tail s') :
    Delimits (fun bs => next s bs >>= fun p => more p.1 p.2) (text ++ tail) s' :=
  hpart.followed (h.delimits hmore) h.ends fun s => hmore.nil s [] rfl

end Sequences

/-! ## Written sequences -/

/-- Pieces after the first one stand behind a comma each. -/
theorem utf8_separate (piece : List Char) (pieces : List (List Char)) :
    utf8 (separate (piece :: pieces)) =
      utf8 piece ++ pieces.flatMap fun p => byte ',' :: utf8 p := by
  induction pieces generalizing piece with
  | nil => simp [separate]
  | cons next pieces ih =>
      show utf8 (piece ++ ',' :: separate (next :: pieces)) = _
      rw [utf8_append, utf8_cons_ascii (by decide), ih, List.flatMap_cons]
      rfl

end MailPush.Json
