/-!
# The frame of a script

A script is an asynchronous function that the bot runtime calls with its
capabilities. The preamble opens the function, declares the shared working
variables and finds the conversation and the contact; the postamble closes
the function and calls it. Both are fixed for one version of the runtime,
and so is the order of the capabilities.
-/

namespace StepGraph.Script

/-- The version of the runtime that scripts are written for. -/
def runtimeVersion : Nat := 1

/-- The capabilities that the runtime hands to a script, in call order. -/
def parameters : List String :=
  ["sendText", "sendMedia", "storage", "http", "findContact", "findConversation", "clock"]

/-- What stands before the first step. -/
def preamble : String :=
  "(async function (sendText, sendMedia, storage, http, findContact, findConversation, clock) \x7b
let response = null;
let result = null;
const conversation = await findConversation();
const contact = await findContact(conversation.contactId);
const conversationId = conversation.id;
const contactId = contact.id;
const contactName = contact.name;
const senderId = conversation.senderId;
"

/-- What stands behind the last step. -/
def postamble : String :=
  "\x7d)(sendText, sendMedia, storage, http, findContact, findConversation, clock);\n"

end StepGraph.Script
