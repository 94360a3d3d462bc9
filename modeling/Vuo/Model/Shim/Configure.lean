import Vuo.Model.Shim.Worker

/-!
# Handing an account to the worker

The pages send the account, and the worker takes it between two commands. It
serves the account's server from then on, over the one database there is.
-/

namespace Vuo.Shim

/-- What the worker is to serve. -/
structure WorkerAccount where
  server : Url
  token : String

/-- `MinifluxClient::new(Transport::new(server, token, ..))`, which knows no version
yet. -/
def WorkerAccount.client (account : WorkerAccount) (cell : ℕ) : MinifluxClient where
  transport := { origin := account.server, token := account.token }
  cell := cell

/-- The commands for an account on their way, and the client that serves one. -/
structure Serving where
  waiting : List WorkerAccount
  client : Option MinifluxClient

namespace Serving

def start : Serving where
  waiting := []
  client := none

/-- The end of `build_from`. -/
def send (account : WorkerAccount) (s : Serving) : Serving :=
  { s with waiting := s.waiting ++ [account] }

/-- `Command::Configure`: an account whose database does not open, or whose client is
not built, is not served, and neither is the one before. -/
def configure (opened built : Bool) (cell : ℕ) (s : Serving) : Serving :=
  match s.waiting with
  | [] => s
  | account :: waiting =>
      { waiting := waiting
        client := if opened && built then some (account.client cell) else none }

end Serving

end Vuo.Shim
