import OrgWeave.Text.Basic

/-!
# The vocabulary of documents and requests

The parameter keys that documents and requests share, and the one block name with a
meaning of its own.
-/

namespace OrgWeave.Vocabulary

/-- The key of references to files outside the documents. -/
def externalKey : Text := "cpp".toList

/-- The key of references to blocks; on a source block, `no` keeps its markers as text. -/
def nestedKey : Text := "noweb".toList

/-- The key that binds a source block to a name shared with other blocks. -/
def referenceKey : Text := "noweb-ref".toList

/-- The name that asks for a request of its own inside a body. It may be declared any
number of times. -/
def selfName : Text := "include".toList

end OrgWeave.Vocabulary
