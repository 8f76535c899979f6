import LittleMan.Machine.Operation
import LittleMan.Main
import LittleMan.Screen.Draw
import LittleMan.Session
import LittleMan.Proofs.Digits
import LittleMan.Proofs.ExactArithmetic
import LittleMan.Proofs.Numerals
import LittleMan.Proofs.Lines
import LittleMan.Proofs.Listing
import LittleMan.Proofs.ProgramText
import LittleMan.Proofs.LineGrammar
import LittleMan.Proofs.ByteStream
import LittleMan.Proofs.Machine.Rules
import LittleMan.Proofs.Machine.Reachable
import LittleMan.Proofs.Machine.Consistency
import LittleMan.Proofs.Machine.Semantics
import LittleMan.Proofs.Machine.Observation
import LittleMan.Proofs.Machine.Runs
import LittleMan.Proofs.Machine.Ledger
import LittleMan.Proofs.Machine.Interleaving
import LittleMan.Proofs.Machine.InputSource
import LittleMan.Proofs.Machine.Questions
import LittleMan.Proofs.Machine.Lockstep
import LittleMan.Proofs.Machine.WordSize
import LittleMan.Proofs.Machine.Restart
import LittleMan.Proofs.Machine.FreshStart
import LittleMan.Proofs.Machine.Stopped
import LittleMan.Proofs.Machine.Loading
import LittleMan.Proofs.Machine.Snapshot
import LittleMan.Proofs.FrontEnds
import LittleMan.Proofs.Prompt
import LittleMan.Proofs.RunLog
import LittleMan.Proofs.MailboxRange
import LittleMan.Proofs.Dump
import LittleMan.Proofs.Session
import LittleMan.Proofs.Debugger
import LittleMan.Proofs.Debugger.Listing
import LittleMan.Proofs.Screen.Picture
import LittleMan.Proofs.Debugger.Screen
import LittleMan.Proofs.Checked.Memory
import LittleMan.Proofs.Checked.Machine
import LittleMan.Proofs.Checked.FrontEnds
import LittleMan.Proofs.Sample.Image
import LittleMan.Proofs.Programs.Counting
import LittleMan.Proofs.Programs.Desk
import LittleMan.Proofs.Programs.Loop
import LittleMan.Proofs.Programs.Multiplication
import LittleMan.Proofs.Programs.Factorial
import LittleMan.Proofs.Programs.Fibonacci
import LittleMan.Proofs.Programs.Maximum
