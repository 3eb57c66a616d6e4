import IncrementalLint.Machine.Watch
import IncrementalLint.Run
import IncrementalLint.Tool.Table

/-!
# Hosts with a shell

A host whose commands are shells on the machine that the workspace belongs to.

* `Host.withShell`  any shell, with an executor of its own choice;
* `Host.standard`   the shell and the tools of the library, for commands and for jobs.
-/

namespace IncrementalLint.Host

/-- commands run in a shell and are waited for as long as they take -/
def withShell (shell : Interpreter) (executor : Executor) (cores : Nat) : Host where
  execute name command dir w := runJob shell name command (some dir) none w
  executor
  cores

def standard : Host := withShell interpreter (runBatch interpreter none) 1

end IncrementalLint.Host
