import Nexal.Lib.Lists
import Nexal.Spec.Message

/-! Which messages come back from a tape as they were. -/

namespace Nexal.Workers

def ContentBlock.plain : ContentBlock → Bool
  | .text _ textSignature => textSignature.isNone
  | .image _ _ => true

def Body.plain : Body → Bool
  | .user (.plain _) => true
  | .user (.blocks blocks) => blocks.all ContentBlock.plain
  | .assistant message => message.responseId ≠ some "" && message.errorMessage ≠ some ""
  | .toolResult message => message.content.all ContentBlock.plain

/-- No signature on the text of a user or of a tool, and no empty text or meta where there could be none. -/
def Message.plain (m : Message) : Bool := m.body.plain && !m.meta.any List.isEmpty

end Nexal.Workers
