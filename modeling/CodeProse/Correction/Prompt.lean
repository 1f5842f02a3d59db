import CodeProse.Correction.Options
import CodeProse.Text.Blank

/-!
# Prompts

The wording of a request to the correction service. A plain request asks for the corrected
text alone, a detailed one for a JSON object with the single changes. A prompt of the user's
own replaces the plain wording.
-/

set_option autoImplicit false

namespace CodeProse

def defaultTargetLanguage : Text := "fr"

/-- The style that is not worth a mention. -/
def neutralStyle : Text := "neutral"

/-- The place of the text in a prompt of the user's own. -/
def textPlaceholder : Text := "\x7btext\x7d"

def changeKinds : List Text := ["spelling", "grammar", "style", "punctuation"]

namespace CorrectionOptions

/-- The mention of a style, empty for none and for the neutral one. -/
def styleClause (options : CorrectionOptions) : Text :=
  match (present? options.style).filter (· ≠ neutralStyle) with
  | some style => " using a ".toText ++ style ++ " style".toText
  | none => []

/-- The paragraph that quotes the context, empty where there is none. -/
def contextParagraph (options : CorrectionOptions) : Text :=
  match present? options.context with
  | some context => "\nContext: ".toText ++ context ++ [.scalar '\n']
  | none => []

def textParagraph (text : Text) : Text :=
  "\nText to correct:\n\"".toText ++ text ++ [.scalar '"']

def targetLanguage (options : CorrectionOptions) (fallback : Text) : Text :=
  (present? options.language).getD fallback

def plainPrompt (options : CorrectionOptions) (fallback text : Text) : Text :=
  "Correct the following text in ".toText ++ options.targetLanguage fallback ++
    " (spelling, grammar and style)".toText ++ options.styleClause ++ ".\n".toText ++
    options.contextParagraph ++ textParagraph text ++
    "\n\nReply with the corrected text only, without any explanation.".toText

def prompt (options : CorrectionOptions) (fallback text : Text) : Text :=
  match present? options.customPrompt with
  | some custom => Text.replaceAll textPlaceholder text custom
  | none => options.plainPrompt fallback text

/-- The shape of the answer to a detailed request. -/
def detailedShape : Text :=
  Text.unlines
    ["\x7b",
      "  \"correctedText\": \"corrected text\",",
      "  \"changes\": [",
      "    \x7b",
      "      \"type\": \"".toText ++ [.scalar '|'].intercalate changeKinds ++ "\",".toText,
      "      \"original\": \"original fragment\",",
      "      \"corrected\": \"corrected fragment\",",
      "      \"explanation\": \"short explanation\"",
      "    \x7d",
      "  ],",
      "  \"confidence\": 0.95",
      "\x7d\n"]

def detailedPrompt (options : CorrectionOptions) (fallback text : Text) : Text :=
  "Analyse and correct the following text in ".toText ++ options.targetLanguage fallback ++
    options.styleClause ++ ". Reply in JSON with:\n".toText ++ detailedShape ++
    options.contextParagraph ++ textParagraph text

end CorrectionOptions

end CodeProse
