import CodeProse.Correction.Prompt
import CodeProse.Proofs.Json.Values

/-!
# Laws of keys

The key of a text under options determines the text and every option that is present, and with
them the prompts. So no two requests that differ share a key.
-/

set_option autoImplicit false

namespace CodeProse

/-- What follows the last place of an item is determined by the whole. -/
theorem append_cons_inj_of_not_mem {α : Type} {item : α} {left right leftRest rightRest : List α}
    (leftFree : item ∉ leftRest) (rightFree : item ∉ rightRest)
    (same : left ++ item :: leftRest = right ++ item :: rightRest) :
    left = right ∧ leftRest = rightRest := by
  rcases List.append_eq_append_iff.mp same with ⟨between, rfl, behind⟩ | ⟨between, rfl, behind⟩
  · cases between with
    | nil => exact ⟨(List.append_nil left).symm, (List.cons.inj behind).2⟩
    | cons first rest =>
        rw [List.cons_append, List.cons.injEq] at behind
        exact absurd (behind.2 ▸ List.mem_append_right rest List.mem_cons_self) leftFree
  · cases between with
    | nil => exact ⟨List.append_nil right, (List.cons.inj behind).2.symm⟩
    | cons first rest =>
        rw [List.cons_append, List.cons.injEq] at behind
        exact absurd (behind.2 ▸ List.mem_append_right rest List.mem_cons_self) rightFree

namespace CorrectionOptions

variable {left right : CorrectionOptions}

def named (options : CorrectionOptions) : List (Text × Option Text) :=
  [("context".toText, options.context), ("custom_prompt", options.customPrompt),
    ("language", options.language), ("style", options.style)]

theorem nodup_named (options : CorrectionOptions) : (options.named.map Prod.fst).Nodup := by
  have names : options.named.map Prod.fst =
      ["context".toText, "custom_prompt", "language", "style"] := rfl
  rw [names]
  decide

theorem nodup_payload (options : CorrectionOptions) : (options.payload.map Prod.fst).Nodup := by
  refine List.pairwise_map.mpr (.filterMap _ ?_ (List.pairwise_map.mp options.nodup_named))
  intro entry other differ shown isShown later isLater
  obtain ⟨text, -, rfl⟩ := Option.map_eq_some_iff.mp isShown
  obtain ⟨further, -, rfl⟩ := Option.map_eq_some_iff.mp isLater
  exact differ

theorem isReadable_toJson (options : CorrectionOptions) :
    Json.IsReadable .unicode 1 options.toJson := by
  refine .object (fun member _ => .unicode member.1) ?_ ?_
  · rw [List.map_map]
    exact options.nodup_payload
  · intro member known
    obtain ⟨entry, -, rfl⟩ := List.mem_map.mp known
    exact .string (.unicode entry.2)

theorem toJson_inj (same : left.toJson = right.toJson) : left.payload = right.payload := by
  refine (List.map_inj_right ?_).mp (Json.object.inj same)
  intro entry other shown
  obtain ⟨names, texts⟩ := Prod.mk.inj shown
  exact Prod.ext names (Json.string.inj texts)

theorem key_inj {leftText rightText : Text} (same : left.key leftText = right.key rightText) :
    leftText = rightText ∧ left.payload = right.payload := by
  have free (options : CorrectionOptions) : CodePoint.ofNat 0 ∉ options.toJson.write .unicode :=
    fun member => options.isReadable_toJson.isPrintable _ member (by decide)
  obtain ⟨texts, written⟩ := append_cons_inj_of_not_mem (free left) (free right) same
  exact ⟨texts, toJson_inj (Json.write_inj left.isReadable_toJson right.isReadable_toJson written)⟩

theorem lookup_payload (options : CorrectionOptions) {name : Text} {option : Option Text}
    (member : (name, option) ∈ options.named) :
    options.payload.lookup name = present? option := by
  cases known : present? option with
  | some text =>
      refine lookup_eq_some_of_mem options.nodup_payload (List.mem_filterMap.mpr ⟨_, member, ?_⟩)
      rw [known]
      rfl
  | none =>
      refine List.lookup_eq_none_iff.mpr fun entry shown => bne_iff_ne.mpr fun same => ?_
      obtain ⟨other, listed, made⟩ := List.mem_filterMap.mp shown
      obtain ⟨text, present, rfl⟩ := Option.map_eq_some_iff.mp made
      cases List.inj_on_of_nodup_map options.nodup_named listed member same.symm
      rw [known] at present
      cases present

section Prompts

variable (same : left.payload = right.payload)
include same

theorem present?_congr (name : Text) {leftOption rightOption : Option Text}
    (leftMember : (name, leftOption) ∈ left.named)
    (rightMember : (name, rightOption) ∈ right.named) :
    present? leftOption = present? rightOption := by
  rw [← left.lookup_payload leftMember, same, right.lookup_payload rightMember]

theorem styleClause_congr : left.styleClause = right.styleClause := by
  have style : present? left.style = present? right.style :=
    present?_congr same "style" (by simp [named]) (by simp [named])
  unfold styleClause
  rw [style]

theorem contextParagraph_congr : left.contextParagraph = right.contextParagraph := by
  have context : present? left.context = present? right.context :=
    present?_congr same "context" (by simp [named]) (by simp [named])
  unfold contextParagraph
  rw [context]

theorem targetLanguage_congr (fallback : Text) :
    left.targetLanguage fallback = right.targetLanguage fallback := by
  have language : present? left.language = present? right.language :=
    present?_congr same "language" (by simp [named]) (by simp [named])
  unfold targetLanguage
  rw [language]

theorem prompt_congr (fallback text : Text) :
    left.prompt fallback text = right.prompt fallback text := by
  have customPrompt : present? left.customPrompt = present? right.customPrompt :=
    present?_congr same "custom_prompt" (by simp [named]) (by simp [named])
  unfold prompt plainPrompt
  rw [customPrompt, styleClause_congr same, contextParagraph_congr same,
    targetLanguage_congr same]

theorem detailedPrompt_congr (fallback text : Text) :
    left.detailedPrompt fallback text = right.detailedPrompt fallback text := by
  unfold detailedPrompt
  rw [styleClause_congr same, contextParagraph_congr same, targetLanguage_congr same]

end Prompts

/-- Requests have the same key exactly if they have the same text and the same options that are
present, and then they are put to the service in the same words. -/
theorem key_eq_key_iff (left right : CorrectionOptions) (leftText rightText : Text) :
    (left.key leftText = right.key rightText ↔
      leftText = rightText ∧ left.payload = right.payload) ∧
    (left.key leftText = right.key rightText → ∀ fallback : Text,
      left.prompt fallback leftText = right.prompt fallback rightText ∧
        left.detailedPrompt fallback leftText = right.detailedPrompt fallback rightText) := by
  refine ⟨⟨key_inj, ?_⟩, ?_⟩
  · rintro ⟨rfl, options⟩
    rw [key, key, toJson, toJson, options]
  · intro same fallback
    obtain ⟨rfl, options⟩ := key_inj same
    exact ⟨prompt_congr options fallback leftText, detailedPrompt_congr options fallback leftText⟩

/-- A text with the characters that a key itself is made of, under options that are all empty. -/
theorem key_eq_key_iff_emptyOptions :
    let text : Text := "\x00\x7b\"context\": \"\\\x7d"
    let empty : CorrectionOptions := ⟨some [], some [], some [], some []⟩
    empty.key text = ({} : CorrectionOptions).key text ∧ ∀ fallback : Text,
      empty.prompt fallback text = ({} : CorrectionOptions).prompt fallback text ∧
        empty.detailedPrompt fallback text = ({} : CorrectionOptions).detailedPrompt fallback text := by
  intro text empty
  obtain ⟨⟨-, keys⟩, prompts⟩ := key_eq_key_iff empty {} text text
  have same := keys ⟨rfl, rfl⟩
  exact ⟨same, prompts same⟩

end CorrectionOptions

end CodeProse
